/-
ProvenoGateway/LineNumbers.lean

One line numbering for every error a model sees: its program's own.

Core sees the prelude and the program as one text and numbers the lines of
that.  The linter takes the number of lines of the prelude off a line
(`compileProgram`), and so does the mapping of a run's error, for each layer of
`WithLine` (`errorParts`), which drops the lines of the prelude.  Both take off
the same number, since the prelude is empty or ends in a line feed; what is
left is the place of the line among those of the program
(`getElem_program`), and the line the linter looks up there.

Lines are numbered in 32 bits, here and in core.
-/
import ProvenoGateway.Engine
import ProvenoGateway.Mediation
import ProvenoGateway.Signing

namespace ProvenoGateway

/-! ### The layers of an error -/

section Layers

variable {Value : Type}

/-- The lines of the `WithLine` layers, outermost first. -/
def VmError.lines : VmError Value → List Nat
  | .withLine line inner => line :: inner.lines
  | _ => []

/-- The error below the layers. -/
def VmError.innermost : VmError Value → VmError Value
  | .withLine _ inner => inner.innermost
  | e => e

end Layers

/-- What a layer adds to the message, after a prelude of so many lines. -/
def shownLine (preludeLines line : Nat) : String :=
  if line > preludeLines then s!"line {line - preludeLines}: " else ""

/-- An error is reported as the error below its layers, after the lines of the
program among them. -/
theorem errorParts_eq (deps : Deps) (preludeLines : Nat) (e : VmError deps.Value) :
    errorParts deps preludeLines e =
      ((errorParts deps 0 e.innermost).1,
        Text.concat (e.lines.map (shownLine preludeLines)) ++ (errorParts deps 0 e.innermost).2) := by
  induction e with
  | withLine line inner ih =>
    show (_, _) = (_, _)
    rw [ih, VmError.lines, List.map_cons, Text.concat_cons, VmError.innermost, shownLine]
    split
    · simp only [String.append_assoc, toString]
    · rw [String.empty_append]
  | _ => simp [VmError.lines, VmError.innermost, Text.concat, errorParts]

/-! ### The lines of the source -/

section Source

variable {prelude program : String}

/-- A terminated prelude is empty or ends in a line feed. -/
theorem terminated_cases (h : terminated prelude = prelude) :
    prelude.toList = [] ∨ ∃ init, prelude.toList = init ++ ['\n'] := by
  by_cases he : prelude = ""
  · rw [he]
    exact Or.inl rfl
  by_cases hend : Text.endsWith '\n' prelude = true
  · have hlast : prelude.toList.getLast? = some '\n' := of_decide_eq_true hend
    exact Or.inr (List.getLast?_eq_some_iff.mp hlast)
  · rw [terminated, if_pos ⟨he, hend⟩] at h
    have hlen := congrArg (fun s => s.toList.length) h
    simp at hlen

/-- The lines of the program come after those of the prelude. -/
theorem pieces_source (h : terminated prelude = prelude) :
    ∃ before, before.length = Text.count '\n' prelude ∧
      Text.splitChars '\n' (prelude ++ program).toList =
        before ++ Text.splitChars '\n' program.toList := by
  rw [String.toList_append, Text.count]
  rcases terminated_cases h with hnil | ⟨init, hinit⟩
  · rw [hnil]
    exact ⟨[], rfl, rfl⟩
  · refine ⟨Text.splitChars '\n' init, ?_, ?_⟩
    · rw [Text.length_splitChars, hinit, List.count_append]
      rfl
    · rw [hinit, List.append_assoc]
      exact Text.splitChars_append '\n' init program.toList

/-- The line of the source at `line` is the line of the program at `line` less
the lines of the prelude. -/
theorem getElem_program (h : terminated prelude = prelude) {line : Nat} {content : List Char}
    (hline : Text.count '\n' prelude < line)
    (hcontent : (Text.splitChars '\n' (prelude ++ program).toList)[line - 1]? = some content) :
    (Text.splitChars '\n' program.toList)[line - Text.count '\n' prelude - 1]? = some content := by
  obtain ⟨before, hlength, hpieces⟩ := @pieces_source prelude program h
  rw [hpieces, List.getElem?_append_right (by omega), hlength] at hcontent
  rwa [show line - Text.count '\n' prelude - 1 = line - 1 - Text.count '\n' prelude by omega]

/-- The linter quotes that line, without a carriage return at its end. -/
theorem programLine_eq {line : Nat} {content : List Char} (hline : 0 < line)
    (hcontent : (Text.splitChars '\n' program.toList)[line - 1]? = some content) :
    (programLine program line).toList = content ∨
      (programLine program line).toList ++ ['\r'] = content := by
  obtain ⟨i, rfl⟩ : ∃ i, line = i + 1 := ⟨line - 1, by omega⟩
  exact Text.getElem_lines hcontent

/-- In 32 bits the prelude is as long as it is, if a line beyond it has 32
bits. -/
theorem lineOffset_eq (h : terminated prelude = prelude) {line : Nat}
    (hline : Text.count '\n' prelude < line) (hbits : line < 2 ^ 32) :
    lineOffset prelude = Text.count '\n' prelude := by
  rw [lineOffset, h]
  exact Nat.mod_eq_of_lt (by omega)

end Source

/-- An error beyond the prelude is reported at its line of the program. -/
theorem located_program {Program : Type} {prelude message : String} {line : Nat}
    (h : terminated prelude = prelude) (hline : Text.count '\n' prelude < line)
    (hbits : line < 2 ^ 32) :
    (located prelude line message : Compiled Program) =
      .lint ⟨line - Text.count '\n' prelude, message⟩ := by
  unfold located
  dsimp only
  rw [lineOffset_eq h hline hbits, if_neg (by omega)]

/-! ### The numbering -/

/-- How the lines of errors are reported, for a program run with these tools. -/
structure LineNumbering (deps : Deps) (allowed : List ToolSchema) (program : String) : Prop where
  /-- A parse error. -/
  parse : ∀ e, deps.parse ((build deps allowed).prelude ++ program) = .error e →
    Text.count '\n' (build deps allowed).prelude < e.line → e.line < 2 ^ 32 →
    compileProgram deps (build deps allowed).prelude program =
      .lint ⟨e.line - Text.count '\n' (build deps allowed).prelude, parseMessage e⟩
  /-- A compile error. -/
  compile : ∀ block e, deps.parse ((build deps allowed).prelude ++ program) = .ok block →
    deps.compile block = .error e →
    Text.count '\n' (build deps allowed).prelude < e.line → e.line < 2 ^ 32 →
    compileProgram deps (build deps allowed).prelude program =
      .lint ⟨e.line - Text.count '\n' (build deps allowed).prelude,
        compileMessage e
          (programLine program (e.line - Text.count '\n' (build deps allowed).prelude))⟩
  /-- An error of a run. -/
  run : ∀ (engine : Engine) principal req compiled traceId,
    engine.allowedSchemas principal = allowed →
    Text.count '\n' (build deps allowed).prelude < 2 ^ 32 → ∀ e : VmError deps.Value,
    errorStatus deps e (engine.preparedOf deps principal req compiled traceId).preludeLines =
      .error (errorParts deps 0 e.innermost).1
        (Text.concat (e.lines.map
          (shownLine (Text.count '\n' (build deps allowed).prelude))) ++
          (errorParts deps 0 e.innermost).2)
  /-- The line that is meant. -/
  line : ∀ line content, Text.count '\n' (build deps allowed).prelude < line →
    (Text.splitChars '\n' ((build deps allowed).prelude ++ program).toList)[line - 1]? =
      some content →
    ∃ own, own + Text.count '\n' (build deps allowed).prelude = line ∧ 0 < own ∧
      own = line - Text.count '\n' (build deps allowed).prelude ∧
      (Text.splitChars '\n' program.toList)[own - 1]? = some content ∧
      ((programLine program own).toList = content ∨
        (programLine program own).toList ++ ['\r'] = content)
  /-- The kind of error, after a prelude of any length. -/
  kind : ∀ preludeLines (e : VmError deps.Value),
    (errorParts deps preludeLines e).1 = (errorParts deps 0 e.innermost).1

/-- Every list of tools and every program has it. -/
theorem line_numbering (deps : Deps) (allowed : List ToolSchema) (program : String) :
    LineNumbering deps allowed program := by
  have hterminated : terminated (build deps allowed).prelude = (build deps allowed).prelude :=
    terminated_prelude (sortTools allowed)
  refine ⟨?_, ?_, ?_, ?_, ?_⟩
  · intro e he hline hbits
    rw [compileProgram, hterminated, he]
    exact located_program hterminated hline hbits
  · intro block e hblock he hline hbits
    simp only [compileProgram, hterminated, hblock, he]
    rw [located_program hterminated hline hbits, lineOffset_eq hterminated hline hbits]
  · intro engine principal req compiled traceId hallowed hshort e
    have hlines : (engine.preparedOf deps principal req compiled traceId).preludeLines =
        Text.count '\n' (build deps allowed).prelude := by
      rw [← hallowed] at hshort ⊢
      exact Nat.mod_eq_of_lt hshort
    rw [hlines, errorStatus, errorParts_eq]
  · intro line content hline hcontent
    have hown := getElem_program hterminated hline hcontent
    exact ⟨line - Text.count '\n' (build deps allowed).prelude, by omega, by omega, rfl, hown,
      programLine_eq (by omega) hown⟩
  · intro preludeLines e
    rw [errorParts_eq]

/-! ### A prelude of more lines than 32 bits count -/

section Examples

open Reference

theorem count_concat_replicate (c : Char) (s : String) (n : Nat) :
    Text.count c (Text.concat (List.replicate n s)) = n * Text.count c s := by
  induction n with
  | zero => simp [Text.concat, Text.count]
  | succ n ih =>
    rw [List.replicate_succ, Text.concat_cons, Text.count, String.toList_append, List.count_append,
      Nat.succ_mul, Nat.add_comm]
    congr 1

theorem destutter_replicate (s : String) (n : Nat) :
    (List.replicate (n + 1) s).destutter (· ≠ ·) = [s] := by
  rw [List.replicate_succ, List.destutter_cons']
  induction n with
  | zero => rfl
  | succ n ih =>
    rw [List.replicate_succ, List.destutter'_cons_neg _ (by simp)]
    exact ih

/-- The tool `s.t`, listed so many times. -/
def copies (n : Nat) : List ToolSchema := List.replicate n (tool objectSchema)

theorem count_prelude_copies {k : Nat} (hk : 0 < k) :
    Text.count '\n' (build reference (copies k)).prelude = k + 1 := by
  obtain ⟨n, rfl⟩ : ∃ n, k = n + 1 := ⟨k - 1, by omega⟩
  have hsorted : sortTools (copies (n + 1)) = copies (n + 1) :=
    List.perm_replicate.mp (List.perm_insertionSort _ _)
  have hservers : ((copies (n + 1)).map ToolSchema.server).insertionSort (· ≤ ·) =
      List.replicate (n + 1) "s" := by
    rw [copies, List.map_replicate]
    exact List.perm_replicate.mp (List.perm_insertionSort _ _)
  show Text.count '\n' (prelude (sortTools (copies (n + 1)))) = n + 1 + 1
  rw [hsorted, prelude, hservers, destutter_replicate, copies, List.map_replicate, Text.count,
    String.toList_append, List.count_append]
  have htools := count_concat_replicate '\n' (declareTool (tool objectSchema)) (n + 1)
  rw [Text.count, show Text.count '\n' (declareTool (tool objectSchema)) = 1 from rfl] at htools
  rw [htools]
  show 1 + (n + 1) * 1 = n + 1 + 1
  omega

/-- `alice` is allowed one tool, which its server lists so many times. -/
def crowdedEngine (n : Nat) : Engine :=
  ⟨vmDefault, policy, { downstreams objectSchema with tools := copies n }, .under "/store", key⟩

theorem crowded_allowed (n : Nat) : (crowdedEngine n).allowedSchemas "alice" = copies n := by
  have hallowed : ((crowdedEngine n).policy.allowedTools "alice").contains
      (tool objectSchema).qualifiedName = true := rfl
  show (copies n).filter _ = _
  rw [copies, List.filter_replicate, if_pos hallowed]

theorem crowded_lines {n : Nat} (hn : 0 < n) :
    Text.count '\n' (build reference ((crowdedEngine n).allowedSchemas "alice")).prelude = n + 1 ∧
    ((crowdedEngine n).preparedOf reference "alice" ⟨"return nil", none, none⟩ .idle
      "0a").preludeLines = (n + 1) % 2 ^ 32 := by
  have hcount : Text.count '\n'
      (build reference ((crowdedEngine n).allowedSchemas "alice")).prelude = n + 1 := by
    rw [crowded_allowed]
    exact count_prelude_copies hn
  refine ⟨hcount, ?_⟩
  show Text.count '\n'
    (build reference ((crowdedEngine n).allowedSchemas "alice")).prelude % 2 ^ 32 = _
  rw [hcount]

/-- Listed 2^32 times, line 2 of the prelude is taken for line 1 of the program. -/
theorem prelude_line_not_dropped :
    Text.count '\n'
        (build reference ((crowdedEngine (2 ^ 32)).allowedSchemas "alice")).prelude = 2 ^ 32 + 1 ∧
    errorStatus reference (.withLine 2 .gasExhausted)
        ((crowdedEngine (2 ^ 32)).preparedOf reference "alice" ⟨"return nil", none, none⟩ .idle
          "0a").preludeLines =
      .error "GasExhausted" "line 1: gas exhausted" := by
  obtain ⟨hcount, hlines⟩ := crowded_lines (n := 2 ^ 32) (by norm_num)
  refine ⟨hcount, ?_⟩
  rw [hlines, show (2 ^ 32 + 1) % 2 ^ 32 = 1 by norm_num]
  rfl

end Examples

end ProvenoGateway
