import ExprLang.Proofs.Evaluation.Steps

/-!
# Outputs that fail

An output that takes only so many lines fails the evaluation that prints more, and it does nothing else. An evaluation with such an
output and one with an output that takes everything do the same, step by step, until a text is refused (`Lockstep`). From there on the
first one prints nothing any more, whatever calls, blocks and loops it is in, since none of them takes the error for its own end. What the
other one prints meanwhile comes behind what they printed together.

So the two runs of a program differ only if the output failed, and then in nothing but that one of them was cut short
(`failing_output_cuts_short`).
-/

namespace ExprLang

variable {α β : Type}

/-- The number of line ends that were written. -/
def Output.lines (out : Output) : Nat := out.text.toList.count '\n'

/-- The same state, but the output takes so many lines, or all. -/
def Interpreter.limitedTo (maxLines : Option Nat) (m : Interpreter) : Interpreter := m.onto { m.output with maxLines }

/-- Whether there is a limit has nothing to do with the cells that are given back. -/
theorem Interpreter.reclaim_limitedTo (m : Interpreter) (maxLines : Option Nat) (reclamation : Reclamation) (mark : Mark) :
    (m.limitedTo maxLines).reclaim reclamation mark = (m.reclaim reclamation mark).limitedTo maxLines := by
  unfold limitedTo
  rw [reclaim_onto, reclaim_eq m reclamation mark]

namespace Evaluation

/-- The same end, but the output takes so many lines, or all. -/
def limitedTo (maxLines : Option Nat) :
    EStateM.Result Interrupt Interpreter α → EStateM.Result Interrupt Interpreter α
  | .ok a m => .ok a (m.limitedTo maxLines)
  | .error i m => .error i (m.limitedTo maxLines)

/-- The evaluation failed because a text was not taken. -/
def OutputFailed (o : EStateM.Result Interrupt Interpreter α) : Prop := ∃ m, o = .error (.failed .output) m

/-! ## With a limit and without -/

/-- How a computation with a limit ends, given the end of the same computation without one: in the same way, or earlier. -/
inductive CutShort (limit : Nat) (o : EStateM.Result Interrupt Interpreter α) : EStateM.Result Interrupt Interpreter α → Prop
  /-- No text was refused. -/
  | same : ¬OutputFailed o → CutShort limit o (limitedTo (some limit) o)
  /-- A text was refused when there were lines enough, and what was written before is written without a limit as well. -/
  | cut {m : Interpreter} : limit ≤ m.output.lines → m.output.text.toList <+: (finalState o).output.text.toList →
    CutShort limit o (.error (.failed .output) m)

theorem CutShort.eq_of_not_failed {limit : Nat} {o o' : EStateM.Result Interrupt Interpreter α} (h : CutShort limit o o')
    (hfail : ¬OutputFailed o') : o' = limitedTo (some limit) o := by
  cases h with
  | same _ => rfl
  | @cut m _ _ => exact absurd ⟨m, rfl⟩ hfail

/-- Where the sink has failed, it has taken its limit of lines, and its text is a beginning of the whole. -/
theorem CutShort.of_failed {limit : Nat} {o : EStateM.Result Interrupt Interpreter α} {m : Interpreter}
    (h : CutShort limit o (.error (.failed .output) m)) :
    limit ≤ m.output.lines ∧ m.output.text.toList <+: (finalState o).output.text.toList := by
  generalize hm : EStateM.Result.error (Interrupt.failed .output) m = o' at h
  cases h with
  | same hfail =>
    cases o with
    | ok a m₁ => exact nomatch hm
    | error i m₁ =>
      have hi : Interrupt.failed .output = i := (EStateM.Result.error.inj hm).1
      rw [← hi] at hfail
      exact absurd ⟨m₁, rfl⟩ hfail
  | cut hlines htext =>
    cases hm
    exact ⟨hlines, htext⟩

/-- How the ends of a computation without a limit and with one belong together, and what the one without does to the output. -/
structure Matched (limit : Nat) (m : Interpreter) (o o' : EStateM.Result Interrupt Interpreter α) : Prop where
  /-- There is no limit afterwards. -/
  unlimited : (finalState o).output.maxLines = none
  /-- Text is only added. -/
  grows : m.output.text.toList <+: (finalState o).output.text.toList
  /-- The one with the limit ends in the same way, or earlier. -/
  cutShort : CutShort limit o o'

/-- The second computation does with a limit what the first one does without. -/
def Lockstep (limit : Nat) ⦃α : Type⦄ (x y : Evaluation Output α) : Prop :=
  ∀ m : Interpreter, m.output.maxLines = none → Matched limit m (x m) (y (m.limitedTo (some limit)))

variable {limit : Nat}

/-- What writes nothing goes on alike. -/
theorem lockstep_silent {x : ∀ σ, Evaluation σ α} (h : Silent x) : Lockstep limit (x Output) (x Output) := by
  intro m hm
  have houtput := h.output m
  have hsame : x Output (m.limitedTo (some limit)) = limitedTo (some limit) (x Output m) := by
    refine (h.same m _).trans ?_
    rw [← houtput]
    cases x Output m <;> rfl
  refine ⟨houtput ▸ hm, houtput ▸ List.prefix_refl _, ?_⟩
  rw [hsame]
  exact .same fun ⟨m', hfail⟩ => (h.failed hfail).1 rfl

theorem lockstep_interrupt {i : Interrupt} (h : i ≠ .failed .output) :
    Lockstep limit (throw i : Evaluation Output α) (throw i) := by
  intro m hm
  refine ⟨hm, List.prefix_refl _, .same ?_⟩
  rintro ⟨m', hfail⟩
  cases hfail
  exact h rfl

/-- A sink that accepts takes the text. -/
theorem write_of_accepts {m : Interpreter} (h : m.output.accepts = true) (s : String) :
    write s m = .ok () (m.onto { m.output with text := m.output.text ++ s }) := by
  simp only [write, Sink.write, Output.write?, h, if_true]
  rfl

/-- A sink that does not accept fails and takes nothing. -/
theorem write_of_not_accepts {m : Interpreter} (h : m.output.accepts = false) (s : String) :
    write s m = .error (.failed .output) m := by
  simp only [write, Sink.write, Output.write?, h, Bool.false_eq_true, if_false]

/-- A text is refused with a limit if as many lines are written, and never without. -/
theorem lockstep_write (s : String) : Lockstep limit (write s) (write s) := by
  intro m hm
  -- Without a limit every text is taken.
  have htaken := write_of_accepts (m := m) (by simp only [Output.accepts, hm]) s
  have hgrows : m.output.text.toList <+: (finalState (write s m)).output.text.toList := by
    rw [htaken]
    change m.output.text.toList <+: (m.output.text ++ s).toList
    rw [String.toList_append]
    exact List.prefix_append _ _
  refine ⟨?_, hgrows, ?_⟩
  · rw [htaken]
    exact hm
  · by_cases h : m.output.lines < limit
    · have haccepts : (m.limitedTo (some limit)).output.accepts = true := decide_eq_true h
      have hsame : write s (m.limitedTo (some limit)) = limitedTo (some limit) (write s m) := by
        rw [write_of_accepts haccepts, htaken]
        rfl
      rw [hsame]
      refine .same ?_
      rintro ⟨m', hfail⟩
      rw [htaken] at hfail
      cases hfail
    · have haccepts : (m.limitedTo (some limit)).output.accepts = false := decide_eq_false h
      rw [write_of_not_accepts haccepts]
      exact .cut (Nat.le_of_not_lt h) hgrows

/-- After a refusal nothing is done any more. -/
theorem Lockstep.bind {x y : Evaluation Output α} {f g : α → Evaluation Output β} (h : Lockstep limit x y)
    (hf : ∀ a, Lockstep limit (f a) (g a)) : Lockstep limit (x >>= f) (y >>= g) := by
  intro m hm
  obtain ⟨hunlimited, hgrows, hcut⟩ := h m hm
  cases hx : x m with
  | ok a m₁ =>
    rw [hx] at hunlimited hgrows hcut
    obtain ⟨hunlimited', hgrows', hcut'⟩ := hf a m₁ hunlimited
    rw [bind_of_ok hx]
    refine ⟨hunlimited', hgrows.trans hgrows', ?_⟩
    -- With the limit the first computation may have been the last one; then only the one without it goes on, and adds text.
    generalize hy : y (m.limitedTo (some limit)) = o' at hcut
    cases hcut with
    | same hfail =>
      rw [bind_of_ok hy]
      exact hcut'
    | cut hlines htext =>
      rw [bind_of_error hy]
      exact .cut hlines (htext.trans hgrows')
  | error i m₁ =>
    rw [hx] at hunlimited hgrows hcut
    rw [bind_of_error hx]
    refine ⟨hunlimited, hgrows, ?_⟩
    generalize hy : y (m.limitedTo (some limit)) = o' at hcut
    cases hcut with
    | same hfail =>
      rw [bind_of_error hy]
      refine .same ?_
      rintro ⟨m', heq⟩
      cases heq
      exact hfail ⟨m₁, rfl⟩
    | cut hlines htext =>
      rw [bind_of_error hy]
      exact .cut hlines htext

/-! ## Ends of calls and of programs -/

/-- What comes after the end of a computation leaves the output as it is, and passes on that it failed. -/
structure PassesOn (t : EStateM.Result Interrupt Interpreter α → EStateM.Result Interrupt Interpreter β) : Prop where
  /-- The output stays what it is. -/
  output : ∀ o, (finalState (t o)).output = (finalState o).output
  /-- Whether there is a limit has nothing to do with it. -/
  limitedTo : ∀ maxLines o, t (limitedTo maxLines o) = limitedTo maxLines (t o)
  /-- That a text was refused is passed on, and it is not made up. -/
  failed : ∀ o, OutputFailed (t o) ↔ OutputFailed o

/-- What is done with both ends alike keeps them in step. -/
theorem Lockstep.passOn {x y : Evaluation Output α}
    {t : EStateM.Result Interrupt Interpreter α → EStateM.Result Interrupt Interpreter β} (h : Lockstep limit x y)
    (ht : PassesOn t) : Lockstep limit (fun m => t (x m)) (fun m => t (y m)) := by
  intro m hm
  obtain ⟨hunlimited, hgrows, hcut⟩ := h m hm
  have houtput := ht.output (x m)
  refine ⟨houtput ▸ hunlimited, houtput ▸ hgrows, ?_⟩
  change CutShort limit (t (x m)) (t (y (m.limitedTo (some limit))))
  generalize y (m.limitedTo (some limit)) = o' at hcut
  cases hcut with
  | same hfail =>
    rw [ht.limitedTo]
    exact .same fun hfail' => hfail ((ht.failed _).1 hfail')
  | @cut m' hlines htext =>
    have houtput' := ht.output (.error (.failed .output) m')
    obtain ⟨m₁, hfailed⟩ := (ht.failed (.error (.failed .output) m')).2 ⟨m', rfl⟩
    rw [hfailed] at houtput' ⊢
    have heq : m₁.output = m'.output := houtput'
    refine .cut ?_ ?_
    · rw [heq]
      exact hlines
    · rw [heq, houtput]
      exact htext

/-- How a call ends, given the end of its body. -/
def endOfCall (reclamation : Reclamation) (mark : Mark) (o : EStateM.Result Interrupt Interpreter Evaluated) :
    EStateM.Result Interrupt Interpreter Value :=
  finishCall reclamation mark (fun _ => o) (finalState o)

theorem passesOn_endOfCall (reclamation : Reclamation) (mark : Mark) : PassesOn (endOfCall reclamation mark) := by
  have houtput (m : Interpreter) : (m.reclaim reclamation mark).output = m.output := by rw [Interpreter.reclaim_eq]
  constructor
  · intro o
    cases o with
    | ok r m => exact houtput m
    | error i m => cases i <;> exact houtput m
  · intro maxLines o
    cases o with
    | ok r m => simp only [endOfCall, finishCall, limitedTo, Interpreter.reclaim_limitedTo]
    | error i m => cases i <;> simp only [endOfCall, finishCall, limitedTo, Interpreter.reclaim_limitedTo]
  · intro o
    unfold OutputFailed endOfCall finishCall
    cases o with
    | ok r m => simp
    | error i m => cases i <;> simp

theorem congruence_lockstep (limit : Nat) (reclamation : Reclamation) : Congruence reclamation (Lockstep limit) where
  silent := lockstep_silent
  interrupt := lockstep_interrupt
  bind := Lockstep.bind
  write := lockstep_write
  finishCall mark _ _ h := h.passOn (passesOn_endOfCall reclamation mark)

/-- How a program ends, given the end of its evaluation and of the resolution of its value. -/
def endOfProgram : EStateM.Result Interrupt Interpreter Value → EStateM.Result Interrupt Interpreter Value
  | .error (.returned _) m => .error (.failed .returnOutsideFunction) m
  | o => o

theorem passesOn_endOfProgram : PassesOn endOfProgram := by
  constructor
  · intro o
    cases o with
    | ok v m => rfl
    | error i m => cases i <;> rfl
  · intro maxLines o
    cases o with
    | ok v m => rfl
    | error i m => cases i <;> rfl
  · intro o
    unfold OutputFailed endOfProgram
    cases o with
    | ok v m => simp
    | error i m => cases i <;> simp

theorem run_eq_endOfProgram (reclamation : Reclamation) (steps : Nat) (program : Expression) :
    run reclamation steps program = fun m : Interpreter => endOfProgram
      ((evaluate reclamation steps program Environment.empty >>= fun r => resolve r.value r.env program.kind) m) := by
  funext m
  unfold run
  cases hm : evaluate reclamation steps program Environment.empty m with
  | ok r m₁ =>
    rw [bind_of_ok hm]
    change ofExcept (m₁.resolve r.value r.env program.kind) m₁ =
      endOfProgram (ofExcept (m₁.resolve r.value r.env program.kind) m₁)
    cases m₁.resolve r.value r.env program.kind <;> rfl
  | error i m₁ =>
    rw [bind_of_error hm]
    cases i <;> rfl

/-- A program does the same with a limit and without until a text is refused. -/
theorem lockstep_run (reclamation : Reclamation) (steps : Nat) (program : Expression) :
    Lockstep limit (run reclamation steps program) (run reclamation steps program) := by
  have heval := (congruence_lockstep limit reclamation).evaluate steps program Environment.empty
  rw [run_eq_endOfProgram]
  exact (heval.bind fun r => lockstep_silent (silent_resolve r.value r.env program.kind)).passOn passesOn_endOfProgram

end Evaluation

open Evaluation

/-- A program is run with an output that refuses every text once it holds as many lines as it takes, and from the same state with one that
takes everything. If the output does not fail, however many steps are allowed, the two runs end in the same way and in the same state,
but for the limit. If it fails, then it holds as many lines as it takes, and what the program comes to without a limit, if it comes to an
end at all, is written behind what was written until then. -/
theorem failing_output_cuts_short (reclamation : Reclamation) (program : Expression) (limit : Nat) (m : Interpreter) :
    (∀ steps, ¬OutputFailed (run reclamation steps program (m.limitedTo (some limit))) →
      run reclamation steps program (m.limitedTo (some limit)) =
        limitedTo (some limit) (run reclamation steps program (m.limitedTo none))) ∧
    ∀ steps m', run reclamation steps program (m.limitedTo (some limit)) = .error (.failed .output) m' →
      limit ≤ m'.output.lines ∧ ∀ o, ComesTo (fun steps => run reclamation steps program) (m.limitedTo none) o →
        m'.output.text.toList <+: (finalState o).output.text.toList := by
  have hcut (steps : Nat) : CutShort limit (run reclamation steps program (m.limitedTo none))
      (run reclamation steps program (m.limitedTo (some limit))) :=
    (lockstep_run reclamation steps program (m.limitedTo none) rfl).cutShort
  constructor
  · intro steps hfail
    exact (hcut steps).eq_of_not_failed hfail
  · intro steps m' hm'
    have hfailed := hcut steps
    rw [hm'] at hfailed
    refine ⟨hfailed.of_failed.1, fun o ho => ?_⟩
    have hlimited : ComesTo (fun steps => run reclamation steps program) (m.limitedTo (some limit)) (.error (.failed .output) m') :=
      ⟨by simp, steps, hm'⟩
    -- Both runs are as they are with steps enough for both of them.
    obtain ⟨enough, henough⟩ := hlimited.eventually fun _ _ hn => run_approximates hn program
    obtain ⟨enough', henough'⟩ := ho.eventually fun _ _ hn => run_approximates hn program
    have hboth := hcut (max enough enough')
    rw [henough _ (Nat.le_max_left enough enough'), henough' _ (Nat.le_max_right enough enough')] at hboth
    exact hboth.of_failed.2

/-- Prints a line, and then two at once from within a call. -/
def threeLines : Expression :=
  .sequence [.print (.string "a"), .call (.function ⟨0, [], .print (.string "b\nc")⟩) [], .integer 1]

/-- An interpreter that has printed this. -/
def printed (text : String) : Interpreter := ⟨Store.empty, #[], 0, ⟨text, none⟩⟩

/-- Where two lines are taken, the end of the third is refused, and where three are, nothing is. -/
theorem failing_output_cuts_short_threeLines :
    (run .onExit 9 threeLines ((printed "").limitedTo (some 2)) = .error (.failed .output) ((printed "a\nb\nc").limitedTo (some 2)) ∧
      2 ≤ (printed "a\nb\nc").output.lines ∧ "a\nb\nc".toList <+: "a\nb\nc\n".toList) ∧
    run .onExit 9 threeLines ((printed "").limitedTo (some 3)) =
      limitedTo (some 3) (run .onExit 9 threeLines ((printed "").limitedTo none)) := by
  have hfull : run .onExit 9 threeLines ((printed "").limitedTo none) = .ok (.int 1) (printed "a\nb\nc\n") := rfl
  have htwo : run .onExit 9 threeLines ((printed "").limitedTo (some 2)) =
    .error (.failed .output) ((printed "a\nb\nc").limitedTo (some 2)) := rfl
  have hthree : run .onExit 9 threeLines ((printed "").limitedTo (some 3)) =
    .ok (.int 1) ((printed "a\nb\nc\n").limitedTo (some 3)) := rfl
  obtain ⟨hlines, htext⟩ := (failing_output_cuts_short .onExit threeLines 2 (printed "")).2 9 _ htwo
  have hends : ComesTo (fun steps => run .onExit steps threeLines) ((printed "").limitedTo none) (.ok (.int 1) (printed "a\nb\nc\n")) :=
    ⟨by simp, 9, hfull⟩
  refine ⟨⟨htwo, hlines, htext _ hends⟩, ?_⟩
  refine (failing_output_cuts_short .onExit threeLines 3 (printed "")).1 9 ?_
  rintro ⟨m', hfail⟩
  rw [hthree] at hfail
  cases hfail

end ExprLang
