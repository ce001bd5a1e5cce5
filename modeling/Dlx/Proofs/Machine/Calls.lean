import Dlx.Proofs.Machine.Cells

/-!
# Calls return

A jump with a link puts the index of the line below it into `R31`, and `JR R31` goes on at the line whose
index is in that register. So a part of the program that is called leads back to where it was called
from, whatever it does, as long as none of its lines has `R31` for its destination.

- **§1** lines that keep a register (`Program.Keeps`)
- **§2** one step that goes on
- **§3** any number of steps at lines that keep a register (`Machine.Passes`)
- **§4** a call, and the return from it
-/

namespace Dlx

/-! ## §1 Lines that keep a register -/

/-- The line is blank, or the destination of its instruction is not the register. -/
def Program.Keeps (p : Program) (r : Register) (line : Nat) : Prop :=
  ∀ i, p.instruction? line = some i → i.destination? ≠ some r

theorem Program.Keeps.update {p : Program} {r : Register} {line : Nat} (h : p.Keeps r line) {s : State}
    {e : Effect} (he : p.effectAt s line = .ok e) (old : Option Word) :
    e.update line (.register r) old = old := by
  rw [effectAt] at he
  cases hi : p.instruction? line with
  | none =>
    rw [hi] at he
    obtain rfl : Effect.pass = e := Except.ok.inj he
    rfl
  | some i =>
    rw [hi] at he
    exact Instruction.update_register_of_ne he (h i hi) line old

/-! ## §2 One step -/

namespace Machine

/-- **What a step does that goes on to a next line.** -/
theorem perform_step_of_stepped {p : Program} {m n : Machine} {line : Nat} (hprogram : m.program = some p)
    (h : m.perform step = (.ok (.stepped line), n)) :
    n.program = some p ∧ line < p.size ∧
      ∃ e, p.effectAt (m.state.wrapped p) line = .ok e ∧
        (∀ cell, n.state.read cell = e.update line cell (m.state.read cell)) ∧
        ∀ target linking, e = .jump target linking → n.state.pc = target := by
  obtain ⟨program, s, b⟩ := m
  obtain rfl : program = some p := hprogram
  rw [perform_step] at h
  obtain ⟨hresult, rfl⟩ := Prod.mk.inj h
  have hsteps := State.steps_step p s
  rw [hresult] at hsteps
  cases hsteps with
  | stepped hl hdispatch hpc =>
    obtain ⟨e, heffect, hread⟩ := State.read_of_dispatch_ok hdispatch
    refine ⟨rfl, Program.lt_size_of_line? hl, e, heffect, fun cell => ?_, ?_⟩
    · rw [hread, State.read_wrapped]
    · rintro target linking rfl
      obtain ⟨e, hjump, happlied⟩ := State.applied_of_dispatch hdispatch
      obtain rfl := Except.ok.inj (heffect.symm.trans hjump)
      exact congrArg State.pc happlied

/-! ## §3 Many steps -/

/-- Any number of steps leads from one machine to another. Each of them goes on to a next line, and each
is at a line that keeps a register. -/
inductive Passes (r : Register) : Machine → Machine → Prop where
  | refl {m : Machine} : Passes r m m
  | step {p : Program} {m n o : Machine} {line : Nat} :
      m.program = some p → m.perform step = (.ok (.stepped line), n) → p.Keeps r line →
      Passes r n o → Passes r m o

/-- **A register is as it was** after steps at lines that keep it, and the program is the same. -/
theorem Passes.read_eq {r : Register} {m n : Machine} (h : m.Passes r n) {p : Program}
    (hprogram : m.program = some p) :
    n.program = some p ∧ n.state.registers.read r = m.state.registers.read r := by
  -- On the steps.
  induction h with
  | refl => exact ⟨hprogram, rfl⟩
  | @step q m n o line hq hstep hkeeps _ ih =>
    obtain rfl : p = q := Option.some.inj (hprogram.symm.trans hq)
    obtain ⟨hn, -, e, heffect, hread, -⟩ := perform_step_of_stepped hprogram hstep
    obtain ⟨ho, hkept⟩ := ih hn
    have hfirst : n.state.registers.read r = m.state.registers.read r :=
      (hread (.register r)).trans (hkeeps.update heffect _)
    exact ⟨ho, hkept.trans hfirst⟩

end Machine

/-! ## §4 Calls and returns -/

/-- The instruction is a jump with a link, `JAL` or `JALR`. -/
def Instruction.IsCall : Instruction → Prop
  | .jump linking _ | .jumpRegister linking _ => linking = true
  | _ => False

/-- A call has a jump with a link for its effect, if it has any. -/
theorem Instruction.IsCall.effect {i : Instruction} (h : i.IsCall) {p : Program} {s : State} {e : Effect}
    (he : i.effect p s = .ok e) : ∃ target, e = .jump target true := by
  rw [effect_eq_ok_iff] at he
  cases i with
  | jump linking label =>
    obtain rfl : linking = true := h
    obtain ⟨target, -, rfl⟩ := he
    exact ⟨target, rfl⟩
  | jumpRegister linking rs =>
    obtain rfl : linking = true := h
    obtain ⟨w, target, -, -, rfl⟩ := he
    exact ⟨target, rfl⟩
  | load | store | register | immediate | branch | halt => exact h.elim

/-- An index that is not greater than the greatest word is the value of its word. -/
theorem Word.toInt_ofIndex {n : Nat} (h : (n : Int) ≤ greatest) : (ofIndex n).toInt = n := by
  rw [ofIndex, Int.min_eq_left h]
  simp only [greatest] at h
  exact Int32.toInt_ofInt_of_le (by omega) (by omega)

/-- **A step at a jump through a register** goes on at the line whose index the register holds; just past
the last line the program has run out. -/
theorem State.step_of_jumpRegister {p : Program} {s : State} {rs : Register} {w : Word} {target : Nat}
    (hi : p.instruction? s.pc = some (.jumpRegister false rs)) (hw : s.registers.read rs = some w)
    (htarget : p.lineOfWord w = .ok target) :
    s.step p =
      if target < p.size then (.ok (.stepped s.pc), s.goto target)
      else (.error .haltNotFound, s.goto 0) := by
  obtain ⟨l, hl, -⟩ := (p.instruction?_eq_some_iff s.pc _).1 hi
  have heffect : p.effectAt s s.pc = .ok (.jump target false) := by
    rw [Program.effectAt, hi]
    exact (Instruction.effect_eq_ok_iff ..).2 ⟨w, target, hw, htarget, rfl⟩
  have hdispatch : s.dispatch p s.pc none = ⟨.ok .next, s.goto target, none⟩ := by
    rw [dispatch_eq, heffect]
    rfl
  rw [step_of_line (wrapped_of_lt (Program.lt_size_of_line? hl)) hl, hdispatch]
  rfl

namespace Machine

/-- **Calls return.** If a step at a line with `JAL` or `JALR` goes on, and then any number of steps go on
at lines that are blank or have another destination than `R31`, and if the next line is `JR R31`, then a
step at it has no fault and goes on at the line below the call, or finds that the call was in the last
line. The index of the line below must be a word. A call through a register leads to the line whose index
the register held before, `R31` included. The machine may be any, and so any that commands can give. -/
theorem call_returns {p : Program} {m called returning : Machine} {line : Nat} {i : Instruction}
    (hprogram : m.program = some p) (hword : ((line + 1 : Nat) : Int) ≤ Word.greatest)
    (hcall : m.perform step = (.ok (.stepped line), called)) (hi : p.instruction? line = some i)
    (hlinks : i.IsCall) (hpasses : called.Passes .link returning)
    (hreturn : p.instruction? returning.state.pc = some (.jumpRegister false .link)) :
    line + 1 ≤ p.size ∧
    (line + 1 < p.size → returning.perform step =
      (.ok (.stepped returning.state.pc),
        { returning with state := returning.state.goto (line + 1) })) ∧
    (line + 1 = p.size → returning.perform step =
      (.error .haltNotFound, { returning with state := returning.state.goto 0 })) ∧
    ∀ rs, i = .jumpRegister true rs →
      ∃ w, m.state.registers.read rs = some w ∧ w.toInt = called.state.pc := by
  obtain ⟨hcalled, hlt, e, heffect, hread, hpc⟩ := perform_step_of_stepped hprogram hcall
  rw [Program.effectAt, hi] at heffect
  obtain ⟨target, rfl⟩ := hlinks.effect heffect
  -- The link is written by the call and kept until the return.
  have hlink : called.state.registers.read .link = some (Word.ofIndex (line + 1)) := by
    have hcell := hread (.register .link)
    rwa [Effect.update, if_pos ⟨rfl, rfl⟩] at hcell
  obtain ⟨hsame, hkept⟩ := hpasses.read_eq hcalled
  have htarget : p.lineOfWord (Word.ofIndex (line + 1)) = .ok (line + 1) :=
    (p.lineOfWord_eq_ok_iff ..).2 ⟨Word.toInt_ofIndex hword, hlt⟩
  have hstep := State.step_of_jumpRegister hreturn (hkept.trans hlink) htarget
  obtain ⟨program, s, b⟩ := returning
  obtain rfl : program = some p := hsame
  refine ⟨hlt, fun hnext => ?_, fun hlast => ?_, ?_⟩
  · rw [perform_step, hstep, if_pos hnext]
  · rw [perform_step, hstep, if_neg (Nat.not_lt.2 (Nat.le_of_eq hlast.symm))]
  · rintro rs rfl
    obtain ⟨w, other, hw, hother, hjump⟩ := (Instruction.effect_eq_ok_iff ..).1 heffect
    obtain ⟨rfl, -⟩ := Effect.jump.inj hjump
    have hregister := m.state.read_wrapped p (.register rs)
    refine ⟨w, hregister.symm.trans hw, ?_⟩
    rw [hpc target true rfl]
    exact ((p.lineOfWord_eq_ok_iff w target).1 hother).1

/-- A program that calls a part of itself through `R31`, and stops when that part has returned. -/
def calling : Program :=
  .ofLines [
    ⟨none, false, some (.immediate .add .link .zero 3)⟩,
    ⟨none, false, some (.jumpRegister true .link)⟩,
    ⟨none, false, some .halt⟩,
    ⟨some "Part", true, some (.store ⟨0, .zero⟩ .link)⟩,
    ⟨none, false, some (.jumpRegister false .link)⟩]

/-- The machine at the line with the call. -/
def caller : Machine :=
  ((initial.obey (.load calling)).2.obey .step).2

theorem reachable_caller : caller.Reachable :=
  .obey (.obey .initial (.ofLines _)) trivial

theorem call_returns_through_link :
    caller.Reachable ∧ ∃ called returning : Machine,
      caller.perform step = (.ok (.stepped 1), called) ∧
        calling.instruction? 1 = some (.jumpRegister true .link) ∧
        (called.state.pc = 3 ∧ caller.state.registers.read .link = some 3) ∧
        called.perform step = (.ok (.stepped 3), returning) ∧
        returning.perform step =
          (.ok (.stepped 4), { returning with state := returning.state.goto 2 }) := by
  have hcall : caller.perform step = (.ok (.stepped 1), (caller.perform step).2) := rfl
  have hinside : (caller.perform step).2.perform step =
      (.ok (.stepped 3), ((caller.perform step).2.perform step).2) := rfl
  have hkeeps : calling.Keeps .link 3 := by
    intro i hi
    obtain rfl := Option.some.inj hi
    decide
  have hpasses := Passes.step (o := ((caller.perform step).2.perform step).2) rfl hinside hkeeps .refl
  obtain ⟨-, hreturns, -, hregister⟩ :=
    call_returns rfl (by decide) hcall (i := .jumpRegister true .link) rfl rfl hpasses rfl
  obtain ⟨w, hw, hpc⟩ := hregister .link rfl
  -- The word that the call reads is the one before the link is written.
  obtain rfl : 3 = w := Option.some.inj hw
  exact ⟨reachable_caller, _, _, hcall, rfl, ⟨(Int.ofNat_inj.1 hpc).symm, hw⟩, hinside, hreturns (by decide)⟩

end Machine

end Dlx
