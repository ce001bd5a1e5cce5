import Dlx.Proofs.Machine.Dispatch

/-!
# The guard over jumps

A guard sees of a line only the jump that it attempts. It refuses that jump, or lets the line do what it
does without a guard. Two things follow for a run, whose guard has counted nothing at first.

- **§1** the jump that a line attempts (`Program.jump?`), and what a guard makes of the line
- **§2** a guard that has counted exactly the jumps of a list (`JumpGuard.Tallies`) refuses exactly the
  jump that is in the list as often as the limit says
- **§3** a guard that is laxer than another one (`JumpGuard.Laxer`) lets everything pass that the other
  one lets pass
-/

namespace Dlx

/-! ## §1 Jumps of lines -/

/-- The jump that a line attempts in a state. A branch that is not taken attempts none, and neither does
a line after which the next one follows. -/
def Program.jump? (p : Program) (s : State) (line : Nat) : Option Jump :=
  match p.effectAt s line with
  | .ok (.jump target _) => some ⟨line, target⟩
  | _ => none

theorem Program.effectAt_of_jump? {p : Program} {s : State} {line : Nat} {j : Jump}
    (h : p.jump? s line = some j) :
    j.source = line ∧ ∃ linking, p.effectAt s line = .ok (.jump j.target linking) := by
  rw [jump?] at h
  split at h
  · rename_i target linking heffect
    obtain rfl := Option.some.inj h
    exact ⟨rfl, linking, heffect⟩
  · exact absurd h (by simp)

namespace State

/-- A guard has no part in a line that attempts no jump. -/
theorem dispatch_of_jump?_eq_none {p : Program} {s : State} {line : Nat}
    (h : p.jump? s line = none) (guard : Option JumpGuard) :
    s.dispatch p line guard = { s.dispatch p line none with guard } := by
  rw [dispatch_eq, dispatch_eq]
  rw [Program.jump?] at h
  cases heffect : p.effectAt s line with
  | error fault => rfl
  | ok e =>
    cases e with
    | jump target linking => simp [heffect] at h
    | write | store | pass | halt => rfl

/-- A jump that is allowed leads to where it leads without a guard. -/
theorem dispatch_of_allowed {p : Program} {s : State} {line : Nat} {j : Jump}
    (h : p.jump? s line = some j) {guard g : Option JumpGuard}
    (hcount : countJump j guard = (.ok (), g)) :
    s.dispatch p line guard = ⟨.ok .next, (s.dispatch p line none).state, g⟩ := by
  obtain ⟨rfl, linking, heffect⟩ := Program.effectAt_of_jump? h
  rw [dispatch_eq, dispatch_eq, heffect]
  simp only [hcount]
  rfl

/-- A jump that is refused leaves the line next. -/
theorem dispatch_of_refused {p : Program} {s : State} {line : Nat} {j : Jump}
    (h : p.jump? s line = some j) {guard g : Option JumpGuard} {fault : Fault}
    (hcount : countJump j guard = (.error fault, g)) :
    s.dispatch p line guard = ⟨.error fault, s.goto line, g⟩ := by
  obtain ⟨rfl, linking, heffect⟩ := Program.effectAt_of_jump? h
  rw [dispatch_eq, heffect]
  simp only [hcount]

end State

/-! ## §2 Exact tallies -/

namespace JumpGuard

/-- The guard has counted exactly the jumps of a list. They lie between lines that it knows, and none has
been taken more often than the limit allows. -/
structure Tallies (g : JumpGuard) (past : List Jump) : Prop where
  count : ∀ j, g.tally.count j = past.count j
  inRange : ∀ j ∈ past, g.tally.InRange j
  within : ∀ j, past.count j ≤ g.limit

theorem tallies_start (length limit : Nat) : (start length limit).Tallies [] where
  count j := JumpTally.count_start length j
  inRange j hj := absurd hj (by simp)
  within j := Nat.zero_le _

/-- Counting one more jump that is allowed. -/
theorem Tallies.counted {g : JumpGuard} {past : List Jump} (h : g.Tallies past)
    (hlength : past.length < JumpTally.greatestCount) {j : Jump} (hrange : g.tally.InRange j)
    (hcount : past.count j < g.limit) : (g.counted j).Tallies (past ++ [j]) where
  count k := by
    show (g.tally.increment j).count k = _
    rw [JumpTally.count_increment, List.count_append, h.count, h.count]
    by_cases hk : k = j
    · -- The list is too short for the count to have reached its end.
      have hle : past.count j ≤ past.length := List.count_le_length
      rw [if_pos hk, hk, List.count_singleton_self]
      omega
    · have hnot : [j].count k = 0 := List.count_eq_zero_of_not_mem (by simpa using hk)
      rw [if_neg hk, hnot, Nat.add_zero]
  inRange k hk := by
    rcases List.mem_append.1 hk with hpast | hnew
    · exact h.inRange k hpast
    · rw [List.mem_singleton.1 hnew]
      exact hrange
  within k := by
    show _ ≤ g.limit
    rw [List.count_append]
    by_cases hk : k = j
    · rw [hk, List.count_singleton_self]
      omega
    · have hnot : [j].count k = 0 := List.count_eq_zero_of_not_mem (by simpa using hk)
      rw [hnot, Nat.add_zero]
      exact h.within k

/-- **What an exact guard says to a jump.** It refuses the jump exactly if it has been taken as often as
the limit says. A jump out of range is none that it knows. -/
theorem Tallies.countJump {g : JumpGuard} {past : List Jump} (h : g.Tallies past)
    (hlimit : 0 < g.limit) (hlength : past.length < JumpTally.greatestCount) (j : Jump) :
    (past.count j = g.limit ∧
      countJump j (some g) = (.error (.tooManyJumps j.source j.target), some (g.counted j))) ∨
    (past.count j < g.limit ∧ (g.counted j).Tallies (past ++ [j]) ∧
      countJump j (some g) = (.ok (), some (g.counted j))) ∨
    (past.count j < g.limit ∧
      countJump j (some g) = (.error (.jumpOutOfRange (Word.ofIndex j.target)), some g)) := by
  have hwithin := h.within j
  by_cases hrange : g.tally.InRange j
  · rw [countJump_of_inRange hrange]
    -- Its own count has not reached its end, and so it tells how often the jump has been taken.
    have hle : past.count j ≤ past.length := List.count_le_length
    have hrefuses : g.Refuses j ↔ past.count j = g.limit := by
      rw [Refuses, h.count]
      omega
    by_cases hfull : past.count j = g.limit
    · rw [if_pos (hrefuses.2 hfull)]
      exact .inl ⟨hfull, rfl⟩
    · have hroom : past.count j < g.limit := by omega
      rw [if_neg (mt hrefuses.1 hfull)]
      exact .inr (.inl ⟨hroom, h.counted hlength hrange hroom, rfl⟩)
  · -- A jump out of range has never been taken.
    have hzero : past.count j = 0 :=
      List.count_eq_zero_of_not_mem fun hmem => hrange (h.inRange j hmem)
    exact .inr (.inr ⟨by omega, countJump_of_not_inRange hrange⟩)

/-! ## §3 Lax guards -/

/-- The first guard allows as much as the second one: it knows the same lines, it has counted no jump
more often, and its limit is not lower. -/
structure Laxer (g h : JumpGuard) : Prop where
  bound : g.tally.bound = h.tally.bound
  count : ∀ j, g.tally.count j ≤ h.tally.count j
  limit : h.limit ≤ g.limit

/-- A guard that has counted nothing is laxer than any with the same lines and no higher limit. -/
theorem laxer_start {length limit : Nat} {h : JumpGuard}
    (hbound : h.tally.bound = (JumpTally.start length).bound) (hlimit : h.limit ≤ limit) :
    (start length limit).Laxer h where
  bound := hbound.symm
  count j := by
    show (JumpTally.start length).count j ≤ _
    rw [JumpTally.count_start]
    exact Nat.zero_le _
  limit := hlimit

theorem Laxer.counted {g h : JumpGuard} (hlax : g.Laxer h) (j : Jump) :
    (g.counted j).Laxer (h.counted j) where
  bound := hlax.bound
  count k := by
    show (g.tally.increment j).count k ≤ (h.tally.increment j).count k
    have hj := hlax.count j
    rw [JumpTally.count_increment, JumpTally.count_increment]
    split
    · omega
    · exact hlax.count k
  limit := hlax.limit

/-- What a laxer guard refuses the other one refuses as well. -/
theorem Laxer.refuses {g h : JumpGuard} (hlax : g.Laxer h) {j : Jump} (hrefuses : g.Refuses j) :
    h.Refuses j := by
  have hcount := hlax.count j
  have hlimit := hlax.limit
  rw [Refuses] at hrefuses ⊢
  omega

/-- **What one guard allows a laxer one allows**, and what it refuses for another reason than its limit
the laxer one refuses for the same reason. Either way it keeps its lines and its limit. -/
theorem Laxer.countJump {g h : JumpGuard} (hlax : g.Laxer h) {j : Jump} {verdict : Except Fault Unit}
    {guard : Option JumpGuard} (hcount : countJump j (some h) = (verdict, guard))
    (hverdict : verdict ≠ .error (.tooManyJumps j.source j.target)) :
    ∃ g' h' : JumpGuard, guard = some h' ∧ g'.Laxer h' ∧ h'.tally.bound = h.tally.bound ∧
      h'.limit = h.limit ∧ countJump j (some g) = (verdict, some g') := by
  by_cases hrange : h.tally.InRange j
  · have hrange' : g.tally.InRange j := by rwa [JumpTally.InRange, hlax.bound]
    rw [countJump_of_inRange hrange] at hcount
    obtain ⟨hverdict', rfl⟩ := Prod.mk.inj hcount
    by_cases hrefuses : h.Refuses j
    · rw [if_pos hrefuses] at hverdict'
      exact absurd hverdict'.symm hverdict
    · rw [if_neg hrefuses] at hverdict'
      refine ⟨g.counted j, h.counted j, rfl, hlax.counted j, rfl, rfl, ?_⟩
      rw [countJump_of_inRange hrange', if_neg (mt hlax.refuses hrefuses), hverdict']
  · have hrange' : ¬ g.tally.InRange j := by rwa [JumpTally.InRange, hlax.bound]
    rw [countJump_of_not_inRange hrange] at hcount
    obtain ⟨rfl, rfl⟩ := Prod.mk.inj hcount
    exact ⟨g, h, rfl, hlax, rfl, rfl, countJump_of_not_inRange hrange'⟩

end JumpGuard

/-- **Under a laxer guard a line does the same**, unless its jump was one too many. -/
theorem State.dispatch_of_laxer {p : Program} {line : Nat} {s t : State} {g h : JumpGuard}
    (hlax : g.Laxer h) {result : Except Fault Flow} {guard : Option JumpGuard}
    (hdispatch : s.dispatch p line (some h) = ⟨result, t, guard⟩)
    (hresult : ∀ source target, result ≠ .error (.tooManyJumps source target)) :
    ∃ g' h' : JumpGuard, guard = some h' ∧ g'.Laxer h' ∧ h'.tally.bound = h.tally.bound ∧
      h'.limit = h.limit ∧ s.dispatch p line (some g) = ⟨result, t, some g'⟩ := by
  cases hjump : p.jump? s line with
  | none =>
    rw [dispatch_of_jump?_eq_none hjump] at hdispatch ⊢
    obtain ⟨rfl, rfl, rfl⟩ := Execution.mk.inj hdispatch
    exact ⟨g, h, rfl, hlax, rfl, rfl, rfl⟩
  | some j =>
    rcases hcount : countJump j (some h) with ⟨verdict, guard'⟩
    cases verdict with
    | ok _ =>
      rw [dispatch_of_allowed hjump hcount] at hdispatch
      obtain ⟨rfl, rfl, rfl⟩ := Execution.mk.inj hdispatch
      obtain ⟨g', h', hguard, hlax', hbound, hlimit, hcount'⟩ := hlax.countJump hcount (by simp)
      exact ⟨g', h', hguard, hlax', hbound, hlimit, dispatch_of_allowed hjump hcount'⟩
    | error fault =>
      rw [dispatch_of_refused hjump hcount] at hdispatch
      obtain ⟨rfl, rfl, rfl⟩ := Execution.mk.inj hdispatch
      have hfault : (.error fault : Except Fault Unit) ≠ .error (.tooManyJumps j.source j.target) := by
        intro heq
        obtain rfl := Except.error.inj heq
        exact hresult _ _ rfl
      obtain ⟨g', h', hguard, hlax', hbound, hlimit, hcount'⟩ := hlax.countJump hcount hfault
      exact ⟨g', h', hguard, hlax', hbound, hlimit, dispatch_of_refused hjump hcount'⟩

end Dlx
