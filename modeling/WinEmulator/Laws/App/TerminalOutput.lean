import Mathlib.Data.List.ModifyLast
import WinEmulator.App.TerminalOutput

/-!
# What the terminal shows of the output of a process

In every schedule what was shown, what is buffered and what is not read are the stream. So what is
lost at the end is what is buffered then. There is nothing if the stream ends with a newline; the
rest of any other stream is shown only by the job, which need not come to it before it is cancelled.
-/

set_option autoImplicit false

namespace WinEmulator.App.TerminalOutput

open WinEmulator.Lib
open WinEmulator.Lib.JavaString
open WinEmulator.Lib.Utf16 (Unit16)

/-- No schedule loses a character of the stream. -/
def Lossless (output : List JString) (stream : JString) : Prop :=
  ∀ as s, run step (start output stream) as = some s → s.Finished → s.shown = stream

/-- No character is lost or duplicated on the way. -/
structure Kept (stream : JString) (s : State) : Prop where
  split : s.shown ++ s.builder ++ s.stream = stream
  inline : newline ∉ s.builder
  ended : s.reader = .endOfStream → s.stream = []

/-- The output is what was added to it, without lines at its beginning. -/
def EndsLog (s : State) : Prop := s.output.flatten <:+ s.log.flatMap Prod.snd

variable {s s' : State} {a : Action} {output : List JString} {stream : JString} {charRead : Unit16}
  {now : Int64}

namespace State

/-! ## The sections -/

/-- A line of the reader is shown after the lines before it. -/
@[simp] theorem shown_add_reader (line : JString) :
    (s.add .reader line).shown = s.shown ++ line := by
  simp [shown, add]

@[simp] theorem shown_add_job (line : JString) :
    (s.add .updateInlineOutputJob line).shown = s.shown ++ line := by
  simp [shown, add]

@[simp] theorem shown_add_other (line : JString) : (s.add .other line).shown = s.shown := by
  simp [shown, add]

/-- Dropping the oldest line takes back nothing of what was shown. -/
@[simp] theorem shown_removeOldest : s.removeOldest.shown = s.shown := by
  rw [removeOldest]
  split
  · rfl
  · rfl

@[simp] theorem removeOldest_stream : s.removeOldest.stream = s.stream := by
  rw [removeOldest]
  split
  · rfl
  · rfl

@[simp] theorem removeOldest_reader : s.removeOldest.reader = s.reader := by
  rw [removeOldest]
  split
  · rfl
  · rfl

@[simp] theorem removeOldest_log : s.removeOldest.log = s.log := by
  rw [removeOldest]
  split
  · rfl
  · rfl

theorem removeOldest_output : s.removeOldest.output <:+ s.output := by
  rw [removeOldest]
  split
  · exact List.drop_suffix 400 s.output
  · exact List.suffix_rfl

/-- A character is shown with what is buffered, or buffered. -/
theorem append_cases (s : State) (charRead : Unit16) (now : Int64) :
    (charRead = newline ∧ (s.append charRead now).shown = s.shown ++ (s.builder ++ [charRead]) ∧
      (s.append charRead now).builder = []) ∨
    (charRead ≠ newline ∧ (s.append charRead now).shown = s.shown ∧
      (s.append charRead now).builder = s.builder ++ [charRead]) := by
  unfold append
  by_cases h : charRead = newline
  · rw [if_pos h]
    refine .inl ⟨h, ?_, rfl⟩
    exact (shown_add_reader _).trans (congrArg (· ++ (s.builder ++ [charRead])) shown_removeOldest)
  · rw [if_neg h]
    exact .inr ⟨h, rfl, rfl⟩

@[simp] theorem append_stream : (s.append charRead now).stream = s.stream := by
  rw [append]
  split
  · exact removeOldest_stream
  · rfl

@[simp] theorem append_reader : (s.append charRead now).reader = s.reader := by
  rw [append]
  split
  · exact removeOldest_reader
  · rfl

/-- The builder's text becomes the last line. -/
@[simp] theorem shown_addInline : s.addInline.shown = s.shown ++ s.builder := by
  rw [addInline]
  split
  · exact shown_add_job s.builder
  · simp [shown]

@[simp] theorem addInline_stream : s.addInline.stream = s.stream := by
  rw [addInline]
  split
  · rfl
  · rfl

@[simp] theorem addInline_reader : s.addInline.reader = s.reader := by
  rw [addInline]
  split
  · rfl
  · rfl

/-- The job shows all that is buffered, or nothing. -/
theorem updateInlineOutput_cases :
    (s.updateInlineOutput.shown = s.shown ++ s.builder ∧ s.updateInlineOutput.builder = []) ∨
      (s.updateInlineOutput.shown = s.shown ∧ s.updateInlineOutput.builder = s.builder) := by
  unfold updateInlineOutput
  split
  · exact .inl ⟨shown_addInline, rfl⟩
  · exact .inr ⟨rfl, rfl⟩

@[simp] theorem updateInlineOutput_stream : s.updateInlineOutput.stream = s.stream := by
  rw [updateInlineOutput]
  split
  · exact addInline_stream
  · rfl

@[simp] theorem updateInlineOutput_reader : s.updateInlineOutput.reader = s.reader := by
  rw [updateInlineOutput]
  split
  · exact addInline_reader
  · rfl

end State

/-- A read takes the next character of the stream. -/
theorem step_read (h : step s (.read now) = some s') :
    ∃ charRead cs, s.reader = .reading ∧ s.stream = charRead :: cs ∧
      { s with stream := cs }.append charRead now = s' := by
  rw [step] at h
  split at h
  case h_1 charRead cs hreader hstream => exact ⟨charRead, cs, hreader, hstream, Option.some.inj h⟩
  case h_2 => cases h

theorem step_read_of_cons {cs : JString} (hreader : s.reader = .reading)
    (hstream : s.stream = charRead :: cs) :
    step s (.read now) = some ({ s with stream := cs }.append charRead now) := by
  obtain ⟨_, _⟩ := s
  subst hreader hstream
  rfl

/-! ## Conservation -/

theorem kept_start (output : List JString) (stream : JString) :
    Kept stream (start output stream) where
  split := rfl
  inline := List.not_mem_nil
  ended := nofun

/-- Appending the character that was read keeps `Kept`. -/
theorem Kept.append {cs : JString} (h : Kept stream s) (hstream : s.stream = charRead :: cs)
    (hreader : s.reader = .reading) :
    Kept stream ({ s with stream := cs }.append charRead now) := by
  have hended : ({ s with stream := cs }.append charRead now).reader = .reading :=
    State.append_reader.trans hreader
  have hsplit := h.split
  rw [hstream] at hsplit
  rcases State.append_cases { s with stream := cs } charRead now with
    ⟨-, hshown, hbuilder⟩ | ⟨hne, hshown, hbuilder⟩
  · refine ⟨?_, ?_, fun heq => nomatch hended.symm.trans heq⟩
    · rw [hshown, hbuilder, State.append_stream, List.append_nil, ← hsplit]
      show s.shown ++ (s.builder ++ [charRead]) ++ cs = _
      rw [← List.append_assoc, List.append_assoc, List.singleton_append]
    · rw [hbuilder]
      exact List.not_mem_nil
  · refine ⟨?_, ?_, fun heq => nomatch hended.symm.trans heq⟩
    · rw [hshown, hbuilder, State.append_stream, ← hsplit]
      show s.shown ++ (s.builder ++ [charRead]) ++ cs = _
      rw [← List.append_assoc, List.append_assoc, List.singleton_append]
    · rw [hbuilder, List.mem_append, not_or]
      exact ⟨h.inline, fun hmem => hne (List.mem_singleton.mp hmem).symm⟩

/-- Updating the inline output keeps `Kept`. -/
theorem Kept.updateInlineOutput (h : Kept stream s) : Kept stream s.updateInlineOutput := by
  have hended : s.updateInlineOutput.reader = .endOfStream → s.updateInlineOutput.stream = [] := by
    rw [State.updateInlineOutput_reader, State.updateInlineOutput_stream]
    exact h.ended
  rcases State.updateInlineOutput_cases (s := s) with ⟨hshown, hbuilder⟩ | ⟨hshown, hbuilder⟩
  · refine ⟨?_, ?_, hended⟩
    · rw [hshown, hbuilder, State.updateInlineOutput_stream, List.append_nil, h.split]
    · rw [hbuilder]
      exact List.not_mem_nil
  · refine ⟨?_, ?_, hended⟩
    · rw [hshown, hbuilder, State.updateInlineOutput_stream, h.split]
    · rw [hbuilder]
      exact h.inline

/-- **Step lemma.** No step loses a character. -/
theorem Kept.step (h : Kept stream s) (hstep : step s a = some s') : Kept stream s' := by
  cases a with
  | read now =>
    obtain ⟨charRead, cs, hreader, hstream, rfl⟩ := step_read hstep
    exact h.append hstream hreader
  | endOfStream =>
    obtain ⟨⟨hreader, hstream⟩, heq⟩ := Option.ite_none_right_eq_some.mp hstep
    obtain rfl := Option.some.inj heq
    exact ⟨h.split, h.inline, fun _ => hstream⟩
  | fail =>
    obtain ⟨-, heq⟩ := Option.ite_none_right_eq_some.mp hstep
    obtain rfl := Option.some.inj heq
    exact ⟨h.split, h.inline, nofun⟩
  | exit =>
    obtain rfl := Option.some.inj hstep
    exact ⟨h.split, h.inline, h.ended⟩
  | whileAlive =>
    obtain ⟨-, heq⟩ := Option.ite_none_right_eq_some.mp hstep
    obtain rfl := Option.some.inj heq
    exact ⟨h.split, h.inline, h.ended⟩
  | wake =>
    obtain ⟨-, heq⟩ := Option.ite_none_right_eq_some.mp hstep
    obtain rfl := Option.some.inj heq
    exact ⟨h.split, h.inline, h.ended⟩
  | updateInlineOutput =>
    obtain ⟨-, heq⟩ := Option.ite_none_right_eq_some.mp hstep
    obtain rfl := Option.some.inj heq
    have hupdated := h.updateInlineOutput
    exact ⟨hupdated.split, hupdated.inline, hupdated.ended⟩
  | stop =>
    obtain ⟨-, heq⟩ := Option.ite_none_right_eq_some.mp hstep
    obtain rfl := Option.some.inj heq
    exact ⟨h.split, h.inline, h.ended⟩
  | echo command =>
    obtain rfl := Option.some.inj hstep
    refine ⟨?_, h.inline, h.ended⟩
    rw [State.echo, State.shown_add_other]
    exact h.split
  | message line =>
    obtain rfl := Option.some.inj hstep
    refine ⟨?_, h.inline, h.ended⟩
    rw [State.shown_add_other]
    exact h.split

/-- In every state of every schedule nothing is lost yet. -/
theorem kept_run {as : List Action} (h : run step (start output stream) as = some s) :
    Kept stream s :=
  run_invariant (fun hkept hstep => hkept.step hstep) (kept_start output stream) h

/-- What is lost is what is buffered at the end. -/
theorem shown_append_builder {as : List Action} (h : run step (start output stream) as = some s)
    (hfinished : s.Finished) :
    s.shown ++ s.builder = stream := by
  have hkept := kept_run h
  have hsplit := hkept.split
  rwa [hkept.ended hfinished.1, List.append_nil] at hsplit

/-! ## The lines of the output -/

theorem endsLog_add {author : Author} (h : EndsLog s) (line : JString) :
    EndsLog (s.add author line) := by
  obtain ⟨dropped, hdropped⟩ := h
  refine ⟨dropped, ?_⟩
  show dropped ++ (s.output ++ [line]).flatten = (s.log ++ [(author, line)]).flatMap Prod.snd
  rw [List.flatten_append, List.flatMap_append, ← hdropped, List.append_assoc]
  simp

theorem endsLog_removeOldest (h : EndsLog s) : EndsLog s.removeOldest := by
  obtain ⟨lines, hlines⟩ := State.removeOldest_output (s := s)
  rw [EndsLog, State.removeOldest_log]
  refine List.IsSuffix.trans ⟨lines.flatten, ?_⟩ h
  rw [← List.flatten_append, hlines]

theorem endsLog_addInline (h : EndsLog s) : EndsLog s.addInline := by
  rw [State.addInline]
  split
  case isTrue => exact endsLog_add h s.builder
  case isFalse hline =>
    obtain ⟨dropped, hdropped⟩ := h
    refine ⟨dropped, ?_⟩
    show dropped ++ (s.output.modifyLast fun lastLine => lastLine ++ s.builder).flatten =
      (s.log ++ [(Author.updateInlineOutputJob, s.builder)]).flatMap Prod.snd
    rw [List.flatMap_append, ← hdropped]
    -- there is a last line, because what is added to an empty output is a new line
    cases hlast : s.output.eq_nil_or_concat' with
    | inl hnil => simp [State.shouldNewLine, hnil] at hline
    | inr hconcat =>
      obtain ⟨lines, lastLine, houtput⟩ := hconcat
      rw [houtput, List.modifyLast_concat]
      simp

/-- **Step lemma.** The output is the end of the log after every step. -/
theorem EndsLog.step (h : EndsLog s) (hstep : step s a = some s') : EndsLog s' := by
  cases a with
  | read now =>
    obtain ⟨charRead, cs, -, -, rfl⟩ := step_read hstep
    have hmid :
        EndsLog { s with
          stream := cs, lastReadCharTime := now, builder := s.builder ++ [charRead] } := h
    unfold State.append
    split
    · exact endsLog_add (endsLog_removeOldest hmid) _
    · exact h
  | updateInlineOutput =>
    obtain ⟨-, heq⟩ := Option.ite_none_right_eq_some.mp hstep
    obtain rfl := Option.some.inj heq
    unfold State.updateInlineOutput
    split
    · exact endsLog_addInline h
    · exact h
  | exit =>
    obtain rfl := Option.some.inj hstep
    exact h
  | echo command =>
    obtain rfl := Option.some.inj hstep
    exact endsLog_add h _
  | message line =>
    obtain rfl := Option.some.inj hstep
    exact endsLog_add h _
  | endOfStream | fail | whileAlive | wake | stop =>
    obtain ⟨-, heq⟩ := Option.ite_none_right_eq_some.mp hstep
    obtain rfl := Option.some.inj heq
    exact h

/-- In every schedule the output is all that was added to it, without its oldest lines. -/
theorem endsLog_run {as : List Action} (h : run step (start output stream) as = some s) :
    EndsLog s := by
  refine run_invariant (fun hends hstep => hends.step hstep) ⟨[], ?_⟩ h
  simp [start]

/-! ## Streams -/

/-- The reader can read all that there is while the job waits. -/
theorem exists_run_reads (cs rest : JString) (hreader : s.reader = .reading)
    (hstream : s.stream = cs ++ rest) :
    ∃ s', run step s (cs.map fun _ => .read 0) = some s' ∧ s'.reader = .reading ∧
      s'.stream = rest := by
  induction cs generalizing s with
  | nil => exact ⟨s, rfl, hreader, hstream⟩
  | cons c cs ih =>
    have hstep : step s (.read 0) = some ({ s with stream := cs ++ rest }.append c 0) :=
      step_read_of_cons hreader hstream
    have hreads : ({ s with stream := cs ++ rest }.append c 0).reader = .reading := by
      rw [State.append_reader, hreader]
    obtain ⟨s', hrun, hs'⟩ := ih hreads State.append_stream
    exact ⟨s', run_cons.mpr ⟨_, hstep, hrun⟩, hs'⟩

/-- A schedule in which the last character of a stream stays in the buffer. -/
theorem exists_run_builder (output : List JString) (cs : JString) (hne : charRead ≠ newline) :
    ∃ as s, run step (start output (cs ++ [charRead])) as = some s ∧ s.Finished ∧
      s.builder ≠ [] := by
  obtain ⟨mid, hmid, hreader, hstream⟩ :=
    exists_run_reads cs [charRead] (s := start output (cs ++ [charRead])) rfl rfl
  let read : State := { mid with stream := [] }.append charRead 0
  let ended : State := { read with reader := .endOfStream, cancelled := true }
  have hread : step mid (.read 0) = some read := step_read_of_cons hreader hstream
  have hended : step read .endOfStream = some ended := by
    apply if_pos
    exact ⟨State.append_reader.trans hreader, State.append_stream⟩
  have hstop : step ended .stop = some { ended with job := .ended } := rfl
  have hrun : run step mid [.read 0, .endOfStream, .stop] = some { ended with job := .ended } :=
    run_cons.mpr ⟨read, hread, run_cons.mpr ⟨ended, hended, run_cons.mpr ⟨_, hstop, rfl⟩⟩⟩
  refine ⟨_, _, run_append hmid hrun, ⟨rfl, rfl⟩, ?_⟩
  show read.builder ≠ []
  rcases State.append_cases { mid with stream := [] } charRead 0 with
    ⟨heq, -⟩ | ⟨-, -, hbuilder⟩
  · exact absurd heq hne
  · rw [hbuilder]
    exact List.append_ne_nil_of_right_ne_nil mid.builder nofun

/-- **No schedule loses a character** exactly of a stream that ends with a newline, or has nothing
in it. -/
theorem lossless_iff (output : List JString) (stream : JString) :
    Lossless output stream ↔ stream = [] ∨ stream.getLast? = some newline := by
  constructor
  · intro hlossless
    rcases stream.eq_nil_or_concat' with hnil | ⟨cs, c, rfl⟩
    · exact .inl hnil
    · refine .inr ?_
      rw [List.getLast?_concat]
      by_contra hne
      obtain ⟨as, s, hrun, hfinished, hbuilder⟩ :=
        exists_run_builder output cs fun heq => hne (congrArg some heq)
      have hshown := shown_append_builder hrun hfinished
      rw [hlossless as s hrun hfinished] at hshown
      exact hbuilder (List.append_right_eq_self.mp hshown)
  · intro hstream as s hrun hfinished
    have hshown := shown_append_builder hrun hfinished
    rcases s.builder.eq_nil_or_concat' with hnil | ⟨cs, c, hconcat⟩
    · rwa [hnil, List.append_nil] at hshown
    · -- what is buffered ends the stream, but has no newline
      have hinline := (kept_run hrun).inline
      rw [hconcat, ← List.append_assoc] at hshown
      rcases hstream with rfl | hlast
      · exact absurd hshown (List.append_ne_nil_of_right_ne_nil _ nofun)
      · rw [← hshown, List.getLast?_concat] at hlast
        rw [hconcat, Option.some.inj hlast] at hinline
        exact absurd (List.mem_append_right cs (List.mem_singleton_self newline)) hinline

/-- A question of a process that ends before the job shows it. -/
theorem not_lossless_question : ¬Lossless [] (text "Y/n ") := by
  intro hlossless
  obtain ⟨as, s, hrun, hfinished, hbuilder⟩ :=
    exists_run_builder [] (text "Y/n") (show (0x20 : Unit16) ≠ newline by decide)
  have hshown := shown_append_builder hrun hfinished
  rw [hlossless as s hrun hfinished] at hshown
  exact hbuilder (List.append_right_eq_self.mp hshown)

end WinEmulator.App.TerminalOutput
