import Dlx.Proofs.Machine.Dispatch
import Mathlib.Algebra.BigOperators.Group.Finset.Basic
import Mathlib.Algebra.Order.BigOperators.Group.Finset
import Mathlib.Data.List.DropRight

/-!
# What a tally has counted

The verdict of a tally on a jump depends on how often that jump has been recorded since the tally was
cleared, and on the limit with which it is recorded now. Other jumps make no difference, and neither do the
limits and the verdicts of before. A jump that is refused is counted nevertheless: a tally tells how often
jumps have been attempted, which is how often they have been taken only as long as none is refused.

- **§1** a tally that has counted the jumps of a list (`JumpTally.Counts`), with its number of edges and
  its total
- **§2** calls on a tally in any order, and the jumps that they attempt (`JumpTally.attempts`)
- **§3** the jumps that a tally allows and those that it refuses
-/

namespace Dlx

namespace JumpTally

/-! ## §1 Counted jumps -/

/-- The tally has counted the jumps of a list, each as often as it is in the list, and no others. -/
structure Counts (t : JumpTally) (past : List Jump) : Prop where
  count : ∀ j, t.count j = min (past.count j) greatestCount
  mem : ∀ j, j ∈ t.counts ↔ j ∈ past

theorem counts_clear (t : JumpTally) : t.clear.Counts [] where
  count j := by simp [JumpTally.count, clear]
  mem j := by simp [clear]

theorem counts_start (length : Nat) : (start length).Counts [] where
  count j := by simp [count_start]
  mem j := by simp [start]

/-- Counting one more jump. -/
theorem Counts.increment {t : JumpTally} {past : List Jump} (h : t.Counts past) (j : Jump) :
    (t.increment j).Counts (past ++ [j]) where
  count k := by
    rw [count_increment, h.count, h.count, List.count_append]
    by_cases hk : k = j
    · -- A count that has reached its end stays there.
      rw [if_pos hk, hk, List.count_singleton_self]
      omega
    · have hnot : [j].count k = 0 := List.count_eq_zero_of_not_mem (by simpa using hk)
      rw [if_neg hk, hnot, Nat.add_zero]
  mem k := by
    rw [JumpTally.increment, Std.TreeMap.mem_insert, h.mem, List.mem_append, List.mem_singleton,
      Std.LawfulEqCmp.compare_eq_iff_eq, or_comm, eq_comm]

/-- The order of the jumps makes no difference. -/
theorem Counts.perm {t : JumpTally} {past others : List Jump} (h : t.Counts past)
    (hperm : past.Perm others) : t.Counts others where
  count j := by rw [h.count, hperm.count_eq]
  mem j := by rw [h.mem, hperm.mem_iff]

section

variable {t : JumpTally} {past : List Jump}

/-- The keys of a tally are the different jumps that it has counted. -/
theorem Counts.toFinset_keys (h : t.Counts past) : t.counts.keys.toFinset = past.toFinset := by
  ext j
  rw [List.mem_toFinset, List.mem_toFinset, Std.TreeMap.mem_keys, h.mem]

/-- **The edges of a tally** are the different jumps that it has counted. -/
theorem Counts.edges_eq (h : t.Counts past) : t.edges = past.toFinset.card := by
  rw [← h.toFinset_keys, List.toFinset_card_of_nodup Std.TreeMap.nodup_keys, Std.TreeMap.length_keys]
  rfl

/-- The entries of a tally are its counts. -/
theorem map_snd_toList (t : JumpTally) :
    t.counts.toList.map Prod.snd = t.counts.keys.map t.count := by
  rw [← Std.TreeMap.map_fst_toList_eq_keys, List.map_map]
  apply List.map_congr_left
  rintro ⟨j, n⟩ hentry
  have hn : t.counts[j]? = some n := Std.TreeMap.mem_toList_iff_getElem?_eq_some.1 hentry
  show n = t.count j
  rw [JumpTally.count, Std.TreeMap.getD_eq_getD_getElem?, hn]
  rfl

/-- **The total of a tally** is the sum of its counts over the different jumps. -/
theorem Counts.total_eq (h : t.Counts past) :
    t.total = ∑ j ∈ past.toFinset, min (past.count j) greatestCount := by
  calc t.total = (t.counts.keys.map t.count).sum := by
        rw [total, map_snd_toList, List.sum_eq_foldl]
    _ = ∑ j ∈ t.counts.keys.toFinset, t.count j :=
        (List.sum_toFinset t.count Std.TreeMap.nodup_keys).symm
    _ = ∑ j ∈ past.toFinset, min (past.count j) greatestCount := by
        rw [h.toFinset_keys]
        exact Finset.sum_congr rfl fun j _ => h.count j

/-- The total does not exceed the number of jumps. -/
theorem Counts.total_le_length (h : t.Counts past) : t.total ≤ past.length := by
  rw [h.total_eq, ← List.sum_toFinset_count_eq_length past]
  exact Finset.sum_le_sum fun j _ => Nat.min_le_left _ _

end

end JumpTally

/-! ## §2 Calls in any order -/

/-- A jump between lines of a program of some length. The index just past the last line is allowed. -/
def Jump.Within (length : Nat) (j : Jump) : Prop :=
  j.source ≤ length ∧ j.target ≤ length

instance (length : Nat) (j : Jump) : Decidable (j.Within length) :=
  inferInstanceAs (Decidable (_ ∧ _))

namespace JumpTally

/-- What a tally can be asked to do. -/
inductive Call where
  | record (j : Jump) (limit : Nat)
  | clear
  deriving DecidableEq, Repr

/-- The call records a jump. -/
def Call.isRecord : Call → Bool
  | .record _ _ => true
  | .clear => false

/-- The jump that a call attempts. -/
def Call.attempt? (length : Nat) : Call → Option Jump
  | .record j _ => if j.Within length then some j else none
  | .clear => none

/-- The tally after a call, whatever its verdict. -/
def call (t : JumpTally) : Call → JumpTally
  | .record j limit => (t.record j limit).2
  | .clear => t.clear

/-- The tally after some calls. -/
def after (t : JumpTally) (calls : List Call) : JumpTally :=
  calls.foldl call t

/-- The jumps that have been attempted since the tally was cleared last, in order. -/
def attempts (length : Nat) (calls : List Call) : List Jump :=
  (calls.rtakeWhile Call.isRecord).filterMap (Call.attempt? length)

theorem attempts_concat_clear (length : Nat) (calls : List Call) :
    attempts length (calls ++ [.clear]) = [] := by
  rw [attempts, List.rtakeWhile_concat_neg _ _ _ (by simp [Call.isRecord])]
  rfl

theorem attempts_concat_record (length : Nat) (calls : List Call) (j : Jump) (limit : Nat) :
    attempts length (calls ++ [.record j limit]) =
      attempts length calls ++ if j.Within length then [j] else [] := by
  rw [attempts, List.rtakeWhile_concat_pos _ _ _ rfl, List.filterMap_append, attempts]
  congr 1
  by_cases hj : j.Within length <;> simp [Call.attempt?, hj]

theorem length_attempts_le (length : Nat) (calls : List Call) :
    (attempts length calls).length ≤ calls.length :=
  (List.length_filterMap_le _ _).trans (List.rtakeWhile_suffix _ calls).length_le

/-- No call changes the lines that a tally knows. -/
theorem bound_call (t : JumpTally) (c : Call) : (t.call c).bound = t.bound := by
  cases c with
  | clear => rfl
  | record j limit =>
    rw [call]
    by_cases hrange : t.InRange j
    · rw [record_of_inRange hrange]
      rfl
    · rw [record_of_not_inRange hrange]

theorem bound_after (t : JumpTally) (calls : List Call) : (t.after calls).bound = t.bound := by
  induction calls generalizing t with
  | nil => rfl
  | cons c calls ih => exact (ih (t.call c)).trans (t.bound_call c)

/-- The lines that a tally knows are those of its program, whose length is a 64-bit number and not the
greatest. -/
theorem inRange_after_iff {length : Nat} (hlength : length < greatestIndex) (calls : List Call)
    (j : Jump) : ((start length).after calls).InRange j ↔ j.Within length := by
  have hbound : ((start length).after calls).bound = length + 1 :=
    (bound_after _ calls).trans (Nat.min_eq_left hlength)
  rw [InRange, hbound, Nat.lt_succ_iff, Nat.lt_succ_iff]
  rfl

/-- What one call makes of the jumps that have been counted. -/
theorem Counts.record {t : JumpTally} {past : List Jump} (h : t.Counts past) (j : Jump) (limit : Nat) :
    (t.record j limit).2.Counts (past ++ if t.InRange j then [j] else []) := by
  by_cases hrange : t.InRange j
  · rw [record_of_inRange hrange, if_pos hrange]
    exact h.increment j
  · rw [record_of_not_inRange hrange, if_neg hrange, List.append_nil]
    exact h

/-- **After any calls a tally has counted what has been attempted** since it was cleared last. -/
theorem counts_after {length : Nat} (hlength : length < greatestIndex) (calls : List Call) :
    ((start length).after calls).Counts (attempts length calls) := by
  -- On the calls from the last one backwards, as the jumps since the last clearing are at the end.
  induction calls using List.reverseRecOn with
  | nil => exact counts_start length
  | append_singleton calls c ih =>
    rw [after, List.foldl_append]
    cases c with
    | clear =>
      rw [attempts_concat_clear]
      exact counts_clear _
    | record j limit =>
      have hrecorded := ih.record j limit
      simp only [inRange_after_iff hlength] at hrecorded
      rw [attempts_concat_record]
      exact hrecorded

/-- **The verdict of a tally depends on the jump alone**, whatever has been recorded before under
whatever limits, and however often the tally has been cleared. A jump out of range is refused, and nothing
changes. Any other jump is allowed exactly if its number, counted from the last clearing and up to the
greatest count, is within the limit. There are as many edges as different jumps have been attempted since
the last clearing; the total is the sum of the counts of these, and not greater than the number of calls. -/
theorem record_exact {length : Nat} (hlength : length < greatestIndex) (calls : List Call) :
    (∀ j limit, ¬ j.Within length → ((start length).after calls).record j limit =
      (.error (.jumpOutOfRange (Word.ofIndex j.target)), (start length).after calls)) ∧
    (∀ j limit, j.Within length →
      (((start length).after calls).record j limit).1 =
        if min ((attempts length calls).count j + 1) greatestCount ≤ limit then .ok ()
        else .error (.tooManyJumps j.source j.target)) ∧
    ((start length).after calls).edges = (attempts length calls).toFinset.card ∧
    ((start length).after calls).total =
      ∑ j ∈ (attempts length calls).toFinset, min ((attempts length calls).count j) greatestCount ∧
    ((start length).after calls).total ≤ calls.length := by
  have hcounts := counts_after hlength calls
  refine ⟨fun j limit hj => ?_, fun j limit hj => ?_, hcounts.edges_eq, hcounts.total_eq,
    hcounts.total_le_length.trans (length_attempts_le length calls)⟩
  · exact record_of_not_inRange (mt (inRange_after_iff hlength calls j).1 hj) limit
  · -- The count has an end, and one more jump does not take it further.
    have hcount : min (((start length).after calls).count j + 1) greatestCount =
        min ((attempts length calls).count j + 1) greatestCount := by
      rw [hcounts.count]
      omega
    rw [record_of_inRange ((inRange_after_iff hlength calls j).2 hj), hcount]
    simp only [← Nat.not_lt, ite_not]

/-- Calls on the tally of the longest program of all. One of them leads out of it. -/
def farCalls : List Call :=
  [.record ⟨1, 0⟩ 9, .clear, .record ⟨1, 0⟩ 0, .record ⟨0, 18446744073709551614⟩ 1,
    .record ⟨0, 18446744073709551615⟩ 5]

theorem record_exact_farCalls :
    18446744073709551614 < greatestIndex ∧
    attempts 18446744073709551614 farCalls = [⟨1, 0⟩, ⟨0, 18446744073709551614⟩] ∧
    ((start 18446744073709551614).after farCalls).record ⟨0, 18446744073709551615⟩ 7 =
      (.error (.jumpOutOfRange 2147483647), (start 18446744073709551614).after farCalls) ∧
    (((start 18446744073709551614).after farCalls).record ⟨1, 0⟩ 2).1 = .ok () ∧
    (((start 18446744073709551614).after farCalls).record ⟨1, 0⟩ 1).1 = .error (.tooManyJumps 1 0) ∧
    ((start 18446744073709551614).after farCalls).edges = 2 ∧
    ((start 18446744073709551614).after farCalls).total = 2 := by
  have hlength : 18446744073709551614 < greatestIndex := by decide
  have hattempts : attempts 18446744073709551614 farCalls =
      [⟨1, 0⟩, ⟨0, 18446744073709551614⟩] := by decide
  obtain ⟨hout, hin, hedges, htotal, -⟩ := record_exact hlength farCalls
  rw [hattempts] at hin hedges htotal
  exact ⟨hlength, hattempts, hout _ 7 (by decide), hin _ 2 (by decide), hin _ 1 (by decide), hedges,
    htotal⟩

/-! ## §3 Jumps taken and jumps refused -/

/-- The verdicts on some jumps, each recorded with a limit of its own, and the tally afterwards. -/
def recordAll : JumpTally → List (Jump × Nat) → List (Jump × Except Fault Unit) × JumpTally
  | t, [] => ([], t)
  | t, (j, limit) :: records =>
    let (verdict, t') := t.record j limit
    let (verdicts, t'') := t'.recordAll records
    ((j, verdict) :: verdicts, t'')

/-- The jumps that have been allowed, in order. -/
def taken (verdicts : List (Jump × Except Fault Unit)) : List Jump :=
  verdicts.filterMap fun
    | (j, .ok _) => some j
    | (_, .error _) => none

/-- The jumps that have been refused because of their limits, in order. -/
def refused (verdicts : List (Jump × Except Fault Unit)) : List Jump :=
  verdicts.filterMap fun
    | (j, .error (.tooManyJumps _ _)) => some j
    | _ => none

/-- **A tally counts what it allows and what it refuses alike.** -/
theorem Counts.recordAll {t : JumpTally} {past : List Jump} (h : t.Counts past)
    (records : List (Jump × Nat)) :
    (t.recordAll records).2.Counts
      (past ++ (taken (t.recordAll records).1 ++ refused (t.recordAll records).1)) := by
  -- On the jumps; the first of them belongs to the past of the rest.
  induction records generalizing t past with
  | nil => simpa [JumpTally.recordAll, taken, refused] using h
  | cons entry records ih =>
    obtain ⟨j, limit⟩ := entry
    have hrest := ih (h.record j limit)
    rw [JumpTally.recordAll]
    by_cases hrange : t.InRange j
    · rw [record_of_inRange hrange] at hrest ⊢
      rw [if_pos hrange] at hrest
      by_cases hover : limit < min (t.count j + 1) greatestCount
      · rw [if_pos hover]
        -- A refused jump stands behind those that are taken later.
        refine hrest.perm ?_
        rw [List.append_assoc, List.singleton_append]
        exact List.Perm.append_left past List.perm_middle.symm
      · rw [if_neg hover]
        rw [List.append_assoc, List.singleton_append] at hrest
        exact hrest
    · rw [record_of_not_inRange hrange] at hrest ⊢
      rw [if_neg hrange, List.append_nil] at hrest
      exact hrest

/-- What a tally tells is right of the jumps of a list: how often each has been counted, how many there
are in all, and how many different ones. -/
structure TellsOf (t : JumpTally) (jumps : List Jump) : Prop where
  count : ∀ j, t.count j = min (jumps.count j) greatestCount
  total : t.total = ∑ j ∈ jumps.toFinset, min (jumps.count j) greatestCount
  edges : t.edges = jumps.toFinset.card

section

variable {t : JumpTally} {front back : List Jump}

theorem Counts.tellsOf {past : List Jump} (h : t.Counts past) : t.TellsOf past :=
  ⟨h.count, h.total_eq, h.edges_eq⟩

/-- When a count is right although only some of the jumps are looked at. -/
theorem min_count_append_iff (front back : List Jump) (j : Jump) :
    min ((front ++ back).count j) greatestCount = min (front.count j) greatestCount ↔
      j ∉ back ∨ greatestCount ≤ front.count j := by
  rw [List.count_append, ← List.count_eq_zero]
  omega

/-- When the total is. -/
theorem Counts.total_eq_iff (h : t.Counts (front ++ back)) :
    t.total = ∑ j ∈ front.toFinset, min (front.count j) greatestCount ↔
      ∀ j ∈ back, greatestCount ≤ front.count j := by
  -- Jumps that are not looked at add nothing to the sum.
  have hsum : ∑ j ∈ front.toFinset, min (front.count j) greatestCount =
      ∑ j ∈ (front ++ back).toFinset, min (front.count j) greatestCount := by
    apply Finset.sum_subset
    · rw [List.toFinset_append]
      exact Finset.subset_union_left
    · intro j _ hj
      rw [List.count_eq_zero_of_not_mem (mt List.mem_toFinset.2 hj), Nat.zero_min]
  have hle : ∀ j ∈ (front ++ back).toFinset,
      min (front.count j) greatestCount ≤ min ((front ++ back).count j) greatestCount := by
    intro j _
    rw [List.count_append]
    omega
  rw [h.total_eq, hsum, eq_comm, Finset.sum_eq_sum_iff_of_le hle]
  constructor
  · intro heq j hj
    have hboth : j ∈ (front ++ back).toFinset :=
      List.mem_toFinset.2 (List.mem_append_right front hj)
    exact ((min_count_append_iff front back j).1 (heq j hboth).symm).resolve_left (not_not_intro hj)
  · intro hfull j _
    refine ((min_count_append_iff front back j).2 ?_).symm
    by_cases hj : j ∈ back
    · exact .inr (hfull j hj)
    · exact .inl hj

/-- When the number of edges is. -/
theorem Counts.edges_eq_iff (h : t.Counts (front ++ back)) :
    t.edges = front.toFinset.card ↔ ∀ j ∈ back, j ∈ front := by
  rw [h.edges_eq, List.toFinset_append]
  constructor
  · intro hcard j hj
    have hsame : front.toFinset = front.toFinset ∪ back.toFinset :=
      Finset.eq_of_subset_of_card_le Finset.subset_union_left (Nat.le_of_eq hcard)
    rw [← List.mem_toFinset, hsame]
    exact Finset.mem_union_right _ (List.mem_toFinset.2 hj)
  · intro hsub
    congr 1
    refine Finset.union_eq_left.2 fun j hj => ?_
    exact List.mem_toFinset.2 (hsub j (List.mem_toFinset.1 hj))

end

/-- **Refused jumps are counted like those that are taken**, whatever the limits. So a tally tells of both
together. Of the jumps that have been taken it tells the right count exactly for those that have never been
refused, or whose count has come to its end; the right total exactly if that holds of all; and the right
number of edges exactly if every jump that has been refused has also been taken. -/
theorem tellsOf_recordAll (length : Nat) (records : List (Jump × Nat)) :
    ∃ verdicts t, (start length).recordAll records = (verdicts, t) ∧
      t.TellsOf (taken verdicts ++ refused verdicts) ∧
      (∀ j, t.count j = min ((taken verdicts).count j) greatestCount ↔
        j ∉ refused verdicts ∨ greatestCount ≤ (taken verdicts).count j) ∧
      (t.total = ∑ j ∈ (taken verdicts).toFinset, min ((taken verdicts).count j) greatestCount ↔
        ∀ j ∈ refused verdicts, greatestCount ≤ (taken verdicts).count j) ∧
      (t.edges = (taken verdicts).toFinset.card ↔ ∀ j ∈ refused verdicts, j ∈ taken verdicts) := by
  have hcounts := (counts_start length).recordAll records
  rw [List.nil_append] at hcounts
  refine ⟨_, _, rfl, hcounts.tellsOf, fun j => ?_, hcounts.total_eq_iff, hcounts.edges_eq_iff⟩
  rw [hcounts.count]
  exact min_count_append_iff _ _ j

/-- Three jumps, of which only the first is allowed. -/
def grudging : List (Jump × Nat) :=
  [(⟨1, 0⟩, 1), (⟨1, 0⟩, 1), (⟨0, 1⟩, 0)]

/-- **A tally does not tell of the jumps that have been taken.** One jump has been taken here, once; the
tally has counted it twice, and a jump that has never been taken besides. -/
theorem not_tellsOf_taken_grudging :
    taken ((start 1).recordAll grudging).1 = [⟨1, 0⟩] ∧
    refused ((start 1).recordAll grudging).1 = [⟨1, 0⟩, ⟨0, 1⟩] ∧
    ((start 1).recordAll grudging).2.count ⟨1, 0⟩ = 2 ∧
    ((start 1).recordAll grudging).2.total = 3 ∧ ((start 1).recordAll grudging).2.edges = 2 ∧
    ¬ ∀ length records, ((start length).recordAll records).2.TellsOf
      (taken ((start length).recordAll records).1) := by
  refine ⟨rfl, rfl, rfl, rfl, rfl, fun h => ?_⟩
  have hedges : 2 = 1 := (h 1 grudging).edges
  exact absurd hedges (by decide)

end JumpTally

end Dlx
