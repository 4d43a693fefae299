import LinkedViews.Command.Script
import LinkedViews.Proofs.Text.Lines
import Mathlib

/-! The lines of a script. A script is read if each of its lines is a step, is blank or is a comment,
and every step keeps the number of its line; the first line that is none of these is named. How lines
are indented and how they end makes no difference, and lines that hold no step move only the numbers
of those behind them. -/
namespace LinkedViews

section Each

variable {α β ε : Type} {f : α → Except ε β}

theorem mapM_eq_ok_iff {items : List α} {values : List β} : items.mapM f = .ok values ↔
    List.Forall₂ (fun item value => f item = .ok value) items values := by
  induction items generalizing values with
  | nil => simp [pure, Except.pure, eq_comm]
  | cons item items ih =>
    rw [List.mapM_cons, List.forall₂_cons_left_iff]
    cases f item with
    | error e => simp [bind, Except.bind]
    | ok value =>
      cases later : items.mapM f with
      | error e => simp [bind, Except.bind, ← ih, later]
      | ok rest => simp [bind, Except.bind, pure, Except.pure, ← ih, later, eq_comm]

/-- The first item that fails decides. -/
theorem of_mapM_eq_error {items : List α} {e : ε} (failed : items.mapM f = .error e) :
    ∃ before item after, items = before ++ item :: after ∧ f item = .error e ∧
      ∀ earlier ∈ before, ∃ value, f earlier = .ok value := by
  induction items with
  | nil => simp [pure, Except.pure] at failed
  | cons item items ih =>
    rw [List.mapM_cons] at failed
    cases first : f item with
    | error e' =>
      obtain rfl : e' = e := by simpa [first, bind, Except.bind] using failed
      exact ⟨[], item, items, rfl, first, by simp⟩
    | ok value =>
      cases later : items.mapM f with
      | error e' =>
        obtain rfl : e' = e := by simpa [first, later, bind, Except.bind] using failed
        obtain ⟨before, item', after, rfl, fails, passes⟩ := ih later
        exact ⟨item :: before, item', after, rfl, fails,
          List.forall_mem_cons.mpr ⟨⟨value, first⟩, passes⟩⟩
      | ok rest => simp [first, later, bind, Except.bind, pure, Except.pure] at failed

end Each

namespace Script

/-- A line that is to be a step: neither blank nor a comment. -/
def HoldsStep (line : List Char) : Prop :=
  Text.trim line ≠ [] ∧ (Text.trim line).head? ≠ some '#'

/-- The line of that number, counted from one, is to be a step. -/
def StepAt (text : List Char) (n : Nat) (line : List Char) : Prop :=
  1 ≤ n ∧ (Text.lines text)[n - 1]? = some line ∧ HoldsStep line

theorem mem_stepLines {text line : List Char} {n : Nat} :
    (n, line) ∈ stepLines text ↔ ∃ raw, StepAt text n raw ∧ line = Text.trim raw := by
  simp only [stepLines, List.mem_filter, List.mem_map, decide_eq_true_eq, Prod.mk.injEq, Prod.exists,
    List.mem_zipIdx_iff_le_and_getElem?_sub]
  constructor
  · rintro ⟨⟨raw, n, ⟨counted, here⟩, rfl, rfl⟩, some, plain⟩
    exact ⟨raw, ⟨counted, here, some, by simpa [isComment] using plain⟩, rfl⟩
  · rintro ⟨raw, ⟨counted, here, some, plain⟩, rfl⟩
    exact ⟨⟨raw, n, ⟨counted, here⟩, rfl, rfl⟩, some, by simpa [isComment] using plain⟩

theorem ascending_stepLines (text : List Char) :
    (stepLines text).Pairwise fun a b => a.1 < b.1 := by
  have numbers : ((Text.lines text).zipIdx 1).Pairwise fun a b => a.2 < b.2 := by
    rw [← List.pairwise_map (f := Prod.snd) (R := (· < ·)), List.zipIdx_map_snd]
    exact List.pairwise_lt_range'
  refine List.Pairwise.filter _ (List.pairwise_map.mpr ?_)
  exact numbers

/-- A line with its number is read as a step with the same number. -/
def Reads (numbered : Nat × List Char) (step : Nat × ScriptStep) : Prop :=
  step.1 = numbered.1 ∧ ScriptStep.parse numbered.2 = .ok step.2

theorem readLine_eq_ok_iff {numbered : Nat × List Char} {step : Nat × ScriptStep} :
    readLine numbered = .ok step ↔ Reads numbered step := by
  unfold readLine Reads
  cases ScriptStep.parse numbered.2 with
  | ok read => simp [Prod.ext_iff, eq_comm]
  | error fault => simp

theorem readLine_eq_error_iff {numbered : Nat × List Char} {failure : CommandFailure} :
    readLine numbered = .error failure ↔
      ∃ fault, ScriptStep.parse numbered.2 = .error fault ∧ failure = .invalidStep numbered.1 fault := by
  unfold readLine
  cases ScriptStep.parse numbered.2 <;> simp [eq_comm]

theorem parse_eq_ok_iff {text : List Char} {script : Script} :
    parse text = .ok script ↔ List.Forall₂ Reads (stepLines text) script := by
  rw [parse, mapM_eq_ok_iff]
  simp only [readLine_eq_ok_iff]

/-- The steps of a script are those of its lines, each under the number of its line. -/
theorem mem_of_reads {lines : List (Nat × List Char)} {script : Script}
    (reads : List.Forall₂ Reads lines script) {n : Nat} {step : ScriptStep} :
    (n, step) ∈ script ↔ ∃ line, (n, line) ∈ lines ∧ ScriptStep.parse line = .ok step := by
  induction reads with
  | nil => simp
  | @cons numbered first lines script read _ ih =>
    obtain ⟨m, line⟩ := numbered
    obtain ⟨m', step'⟩ := first
    obtain ⟨same, parsed⟩ := read
    simp only at same parsed
    subst same
    simp only [List.mem_cons, Prod.mk.injEq, ih]
    constructor
    · rintro (⟨rfl, rfl⟩ | ⟨line', member, parsed'⟩)
      · exact ⟨line, .inl ⟨rfl, rfl⟩, parsed⟩
      · exact ⟨line', .inr member, parsed'⟩
    · rintro ⟨line', ⟨rfl, rfl⟩ | member, parsed'⟩
      · exact .inl ⟨rfl, Except.ok.inj (parsed'.symm.trans parsed)⟩
      · exact .inr ⟨line', member, parsed'⟩

theorem valid_of_reads {lines : List (Nat × List Char)} {script : Script}
    (reads : List.Forall₂ Reads lines script) {n : Nat} {line : List Char}
    (member : (n, line) ∈ lines) : ∃ step, ScriptStep.parse line = .ok step := by
  induction reads with
  | nil => simp at member
  | cons read _ ih =>
    rcases List.mem_cons.mp member with rfl | later
    · exact ⟨_, read.2⟩
    · exact ih later

theorem numbers_of_reads {lines : List (Nat × List Char)} {script : Script}
    (reads : List.Forall₂ Reads lines script) : script.map Prod.fst = lines.map Prod.fst := by
  induction reads with
  | nil => rfl
  | cons read _ ih => rw [List.map_cons, List.map_cons, read.1, ih]

/-- A script that is not read names a line that is no step, the first there is. -/
theorem of_parse_eq_error {text : List Char} {failure : CommandFailure}
    (failed : parse text = .error failure) : ∃ n line fault, failure = .invalidStep n fault ∧
      StepAt text n line ∧ ScriptStep.parse (Text.trim line) = .error fault ∧
      ∀ m < n, ∀ line', StepAt text m line' →
        ∃ step, ScriptStep.parse (Text.trim line') = .ok step := by
  obtain ⟨before, ⟨n, line⟩, after, split, fails, passes⟩ := of_mapM_eq_error failed
  obtain ⟨fault, refused, named⟩ := readLine_eq_error_iff.mp fails
  obtain ⟨raw, here, rfl⟩ := mem_stepLines.mp (split ▸ List.mem_append_right before List.mem_cons_self)
  refine ⟨n, raw, fault, named, here, refused, fun m less line' there => ?_⟩
  have ascending := ascending_stepLines text
  rw [split] at ascending
  obtain ⟨-, behind, -⟩ := List.pairwise_append.mp ascending
  have member := mem_stepLines.mpr ⟨line', there, rfl⟩
  rw [split] at member
  rcases List.mem_append.mp member with earlier | later
  · obtain ⟨step, read⟩ := passes _ earlier
    exact ⟨step.2, (readLine_eq_ok_iff.mp read).2⟩
  · rcases List.mem_cons.mp later with same | later
    · exact absurd (Prod.mk.inj same).1 (Nat.ne_of_lt less)
    · have := (List.pairwise_cons.mp behind).1 _ later
      simp only at this
      omega

/-- How many of the added lines stand before the line of that number among the others. A mark for each
line tells whether it was added. -/
def added : List Bool → Nat → Nat
  | [], _ => 0
  | true :: marks, n => added marks n + 1
  | false :: marks, n => if n ≤ 1 then 0 else added marks (n - 1)

/-- The second text is the first in another layout: its lines are indented, or end in another way,
and marked lines that hold no step stand between them. -/
inductive Relaid : List Bool → List Char → List Char → Prop
  | done : Relaid [] [] []
  | kept {marks : List Bool} {indent line ending ending' rest rest' : List Char}
      (free : '\n' ∉ line) (blank : ∀ c ∈ indent, Text.isBlank c = true ∧ c ≠ '\n')
      (ends : Text.IsEnding ending rest) (ends' : Text.IsEnding ending' rest')
      (some : line ++ ending ≠ []) (some' : indent ++ line ++ ending' ≠ [])
      (later : Relaid marks rest rest') :
      Relaid (false :: marks) (line ++ ending ++ rest) (indent ++ line ++ ending' ++ rest')
  | added {marks : List Bool} {line ending rest rest' : List Char}
      (free : '\n' ∉ line) (idle : ¬HoldsStep line) (ends : Text.IsEnding ending rest')
      (some : line ++ ending ≠ []) (later : Relaid marks rest rest') :
      Relaid (true :: marks) rest (line ++ ending ++ rest')

/-- Trimmed lines with their numbers, those that are to be steps. -/
def numbered (lines : List (List Char)) : List (Nat × List Char) :=
  ((lines.zipIdx 1).map Prod.swap).filter fun (_, line) => line ≠ [] ∧ isComment line = false

theorem stepLines_eq (text : List Char) :
    stepLines text = numbered ((Text.lines text).map Text.trim) := by
  rw [stepLines, numbered, List.zipIdx_map, List.map_map]
  rfl

theorem numbered_cons (line : List Char) (lines : List (List Char)) :
    numbered (line :: lines) = (if line ≠ [] ∧ isComment line = false then [(1, line)] else []) ++
      (numbered lines).map fun (n, line) => (n + 1, line) := by
  have later : (lines.zipIdx 2).map Prod.swap =
      ((lines.zipIdx 1).map Prod.swap).map fun (n, line) => (n + 1, line) := by
    rw [List.map_map, List.zipIdx_succ, List.map_map]
    rfl
  rw [numbered, List.zipIdx_cons, List.map_cons, later, List.filter_cons, List.filter_map]
  simp only [Prod.swap, decide_eq_true_eq]
  split <;> rfl

theorem one_le_of_mem_numbered {lines : List (List Char)} {n : Nat} {line : List Char}
    (member : (n, line) ∈ numbered lines) : 1 ≤ n := by
  simp only [numbered, List.mem_filter, List.mem_map, Prod.exists,
    List.mem_zipIdx_iff_le_and_getElem?_sub] at member
  obtain ⟨⟨_, m, ⟨counted, -⟩, same⟩, -⟩ := member
  exact (Prod.mk.inj same).1 ▸ counted

theorem stepLines_relaid {marks : List Bool} {text text' : List Char}
    (relaid : Relaid marks text text') :
    stepLines text' = (stepLines text).map fun (n, line) => (n + added marks n, line) := by
  simp only [stepLines_eq]
  induction relaid with
  | done => rfl
  | @kept marks indent line ending ending' rest rest' free blank ends ends' some some' _ ih =>
    have free' : '\n' ∉ indent ++ line := by
      rw [List.mem_append, not_or]
      exact ⟨fun member => (blank _ member).2 rfl, free⟩
    rw [Text.trim_lines_append free ends some, Text.trim_lines_append free' ends' some',
      Text.trim_append_of_indent (fun c member => (blank c member).1), numbered_cons,
      numbered_cons, ih, List.map_append, List.map_map, List.map_map]
    congr 1
    · split <;> rfl
    · refine List.map_congr_left fun ⟨n, line⟩ member => ?_
      have counted := one_le_of_mem_numbered member
      simp only [Function.comp_apply, added, Nat.add_sub_cancel]
      rw [if_neg (by omega)]
      congr 1
      omega
  | @added marks line ending rest rest' free idle ends some _ ih =>
    have skipped : ¬(Text.trim line ≠ [] ∧ isComment (Text.trim line) = false) := by
      simpa [HoldsStep, isComment] using idle
    rw [Text.trim_lines_append free ends some, numbered_cons, if_neg skipped, ih, List.nil_append,
      List.map_map]
    rfl

/-- A script or a failure under other numbers. -/
def renumber (move : Nat → Nat) : Except CommandFailure Script → Except CommandFailure Script
  | .ok script => .ok (script.map fun (n, step) => (move n, step))
  | .error (.invalidStep n fault) => .error (.invalidStep (move n) fault)
  | .error failure => .error failure

theorem mapM_readLine_renumbered (move : Nat → Nat) (lines : List (Nat × List Char)) :
    (lines.map fun (n, line) => (move n, line)).mapM readLine =
      renumber move (lines.mapM readLine) := by
  induction lines with
  | nil => rfl
  | cons numbered lines ih =>
    obtain ⟨n, line⟩ := numbered
    rw [List.map_cons, List.mapM_cons, List.mapM_cons, ih, readLine, readLine]
    cases ScriptStep.parse line with
    | error fault => rfl
    | ok step =>
      cases lines.mapM readLine with
      | ok script => rfl
      | error failure => cases failure <;> rfl

theorem parse_relaid {marks : List Bool} {text text' : List Char} (relaid : Relaid marks text text') :
    parse text' = renumber (fun n => n + added marks n) (parse text) := by
  rw [parse, parse, stepLines_relaid relaid, ← mapM_readLine_renumbered]

/-- Each line feed with a carriage return before it. -/
def withReturns (text : List Char) : List Char :=
  text.flatMap fun c => if c = '\n' then ['\r', '\n'] else [c]

theorem withReturns_of_free {line : List Char} (free : '\n' ∉ line) : withReturns line = line := by
  induction line with
  | nil => rfl
  | cons c line ih =>
    rw [List.mem_cons, not_or] at free
    simp only [withReturns, List.flatMap_cons, if_neg (Ne.symm free.1)]
    rw [← withReturns, ih free.2]
    rfl

theorem withReturns_append (text rest : List Char) :
    withReturns (text ++ rest) = withReturns text ++ withReturns rest := List.flatMap_append

/-- No line is added when only the endings change. -/
theorem exists_relaid_withReturns (text : List Char) :
    ∃ marks, Relaid marks text (withReturns text) ∧ ∀ n, added marks n = 0 := by
  induction length : text.length using Nat.strong_induction_on generalizing text with
  | _ size ih =>
    by_cases parted : '\n' ∈ text
    · obtain ⟨line, rest, rfl, free⟩ := List.eq_append_cons_of_mem parted
      have less : rest.length < size := by
        simp only [List.length_append, List.length_cons] at length
        omega
      obtain ⟨marks, later, none⟩ := ih rest.length less rest rfl
      have step : Relaid (false :: marks) (line ++ ['\n'] ++ rest)
          ([] ++ line ++ ['\r', '\n'] ++ withReturns rest) :=
        .kept free (by simp) (.inl rfl) (.inr (.inl rfl)) (by simp) (by simp) later
      refine ⟨false :: marks, ?_, fun n => ?_⟩
      · rw [withReturns_append, withReturns_of_free free]
        simpa [withReturns] using step
      · simp [added, none]
    · rw [withReturns_of_free parted]
      by_cases empty : text = []
      · subst empty
        exact ⟨[], .done, fun _ => rfl⟩
      · have step : Relaid [false] (text ++ [] ++ []) ([] ++ text ++ [] ++ []) :=
          .kept parted (by simp) (.inr (.inr ⟨rfl, rfl⟩)) (.inr (.inr ⟨rfl, rfl⟩)) (by simpa)
            (by simpa) .done
        refine ⟨[false], by simpa using step, fun n => ?_⟩
        simp [added]

theorem renumber_id (result : Except CommandFailure Script) : renumber id result = result := by
  cases result with
  | ok script => exact congrArg Except.ok (List.map_id script)
  | error failure => cases failure <;> rfl

theorem parse_withReturns (text : List Char) : parse (withReturns text) = parse text := by
  obtain ⟨marks, relaid, none⟩ := exists_relaid_withReturns text
  have same : (fun n => n + added marks n) = id := by
    funext n
    rw [none]
    rfl
  rw [parse_relaid relaid, same, renumber_id]

/-- What a script is read as. It is read exactly if each line that is neither blank nor a comment is a
step once it is trimmed; what is read are those steps, each under the number of its line, by
ascending numbers. Otherwise the first line that is no step is named. In another layout, with lines
indented or ended otherwise and with blank lines and comments put between them, it is read alike: each
number, in a script as in a failure, goes up by as many lines as were added before it, and goes down
again when they are taken out. -/
theorem steps_numbered_by_lines (text : List Char) :
    ((∃ script, parse text = .ok script) ↔ ∀ n line, StepAt text n line →
      ∃ step, ScriptStep.parse (Text.trim line) = .ok step) ∧
    (∀ script, parse text = .ok script → script.Pairwise (fun a b => a.1 < b.1) ∧
      ∀ n step, (n, step) ∈ script ↔ ∃ line, StepAt text n line ∧
        ScriptStep.parse (Text.trim line) = .ok step) ∧
    (∀ failure, parse text = .error failure ↔ ∃ n line fault, failure = .invalidStep n fault ∧
      failure.message = s!"line {n}: invalid step" ∧
      StepAt text n line ∧ ScriptStep.parse (Text.trim line) = .error fault ∧
      ∀ m < n, ∀ line', StepAt text m line' →
        ∃ step, ScriptStep.parse (Text.trim line') = .ok step) ∧
    (∀ marks text', Relaid marks text text' →
      parse text' = renumber (fun n => n + added marks n) (parse text)) ∧
    parse (withReturns text) = parse text := by
  have steps {script : Script} (read : parse text = .ok script) (n : Nat) (step : ScriptStep) :
      (n, step) ∈ script ↔ ∃ line, StepAt text n line ∧
        ScriptStep.parse (Text.trim line) = .ok step := by
    rw [mem_of_reads (parse_eq_ok_iff.mp read)]
    constructor
    · rintro ⟨line, member, parsed⟩
      obtain ⟨raw, here, rfl⟩ := mem_stepLines.mp member
      exact ⟨raw, here, parsed⟩
    · rintro ⟨raw, here, parsed⟩
      exact ⟨_, mem_stepLines.mpr ⟨raw, here, rfl⟩, parsed⟩
  have valid {script : Script} (read : parse text = .ok script) {n : Nat} {line : List Char}
      (here : StepAt text n line) : ∃ step, ScriptStep.parse (Text.trim line) = .ok step :=
    valid_of_reads (parse_eq_ok_iff.mp read) (mem_stepLines.mpr ⟨line, here, rfl⟩)
  refine ⟨⟨?_, fun all => ?_⟩, fun script read => ⟨?_, steps read⟩, fun failure => ⟨fun failed => ?_, ?_⟩,
    fun marks text' relaid => parse_relaid relaid, parse_withReturns text⟩
  · rintro ⟨script, read⟩ n line here
    exact valid read here
  · cases result : parse text with
    | ok script => exact ⟨script, rfl⟩
    | error failure =>
      obtain ⟨n, line, fault, -, here, refused, -⟩ := of_parse_eq_error result
      obtain ⟨step, parsed⟩ := all n line here
      rw [refused] at parsed
      contradiction
  · have ascending := List.pairwise_map.mpr (ascending_stepLines text)
    rw [← numbers_of_reads (parse_eq_ok_iff.mp read)] at ascending
    exact List.pairwise_map.mp ascending
  · obtain ⟨n, line, fault, rfl, here, refused, first⟩ := of_parse_eq_error failed
    exact ⟨n, line, fault, rfl, rfl, here, refused, first⟩
  · rintro ⟨n, line, fault, rfl, -, here, refused, first⟩
    have invalid : ¬∃ step, ScriptStep.parse (Text.trim line) = .ok step := by simp [refused]
    cases result : parse text with
    | ok script => exact absurd (valid result here) invalid
    | error failure =>
      obtain ⟨m, line', fault', rfl, there, refused', first'⟩ := of_parse_eq_error result
      have invalid' : ¬∃ step, ScriptStep.parse (Text.trim line') = .ok step := by simp [refused']
      obtain rfl : m = n := by
        rcases Nat.lt_trichotomy m n with less | same | more
        · exact absurd (first m less line' there) invalid'
        · exact same
        · exact absurd (first' n more line here) invalid
      obtain rfl := Option.some.inj (there.2.1.symm.trans here.2.1)
      rw [Except.error.inj (refused'.symm.trans refused)]

namespace Sample

def syncing : List Char := "\x7b\"sync\":\x7b\"uri\":\"file:/a.mj\"\x7d\x7d".toList

def note : List Char := "# the outline follows".toList

/-- The same step behind a note, indented, on a line that ends with a carriage return as well. -/
def noted : List Char := note ++ ['\n'] ++ ([' ', '\t'] ++ syncing ++ ['\r', '\n'] ++ [])

theorem relaid_noted : Relaid [true, false] syncing noted := by
  have blank : ∀ c ∈ [' ', '\t'], Text.isBlank c = true ∧ c ≠ '\n' :=
    List.forall_mem_cons.mpr ⟨by decide, List.forall_mem_singleton.mpr (by decide)⟩
  have kept : Relaid [false] (syncing ++ [] ++ []) ([' ', '\t'] ++ syncing ++ ['\r', '\n'] ++ []) :=
    .kept (by decide) blank (.inr (.inr ⟨rfl, rfl⟩)) (.inr (.inl rfl)) (by decide) (by decide)
      .done
  rw [List.append_nil, List.append_nil] at kept
  exact .added (by decide) (fun holds => holds.2 (by cbv)) (.inl rfl) (by decide) kept

/-- The step is on the second line then. -/
theorem noted_step_moves : Relaid [true, false] syncing noted ∧
    parse syncing = .ok [(1, .sync "file:/a.mj")] ∧ parse noted = .ok [(2, .sync "file:/a.mj")] := by
  have read : parse syncing = .ok [(1, .sync "file:/a.mj")] := by cbv
  have moved := (steps_numbered_by_lines syncing).2.2.2.1 _ _ relaid_noted
  rw [read] at moved
  exact ⟨relaid_noted, read, moved⟩

end Sample

end Script

end LinkedViews
