/-
ProvenoGateway/Integers.lean

What a program receives for an integer that a tool writes.

A downstream's answer is one text block with a JSON object in it.  The text is
read (`serde_json`), mapped to a table (`json_to_table`) and the program finds
the integer where the text has it: `follow` is the position in the text,
`Reaches` the same path of keys in the table.

A literal of a 64-bit integer arrives exactly, as an integer or as its decimal
text.  Any other literal is held as a double and arrives as the text of that
double, which spells no integer (`arrives`).  So the integers that arrive
exactly are those of the held literals in the texts that are read at all.
-/
import ProvenoGateway.JsonPath
import ProvenoGateway.Downstream
import ProvenoGateway.Mapping

namespace ProvenoGateway

/-- Core's values are told apart by their constructors and what they carry. -/
structure CoreValues (deps : Deps) : Prop where
  integer_inj : ∀ i j, deps.integer i = deps.integer j → i = j
  string_inj : ∀ s s', deps.string s = deps.string s' → s = s'
  table_inj : ∀ t t', deps.table t = deps.table t' → t = t'
  integer_ne_string : ∀ i s, deps.integer i ≠ deps.string s
  string_ne_table : ∀ s t, deps.string s ≠ deps.table t

/-- The text of a double has a decimal point or an exponent. -/
def DoubleTexts (double : String → Option String) : Prop :=
  ∀ text printed, double text = some printed → '.' ∈ printed.toList ∨ 'e' ∈ printed.toList

/-- The key of a member, or of an item: arrays start at 1. -/
def LuaKey.ofStep : Json.Step → LuaKey
  | .key k => .string k
  | .item i => .integer (i + 1)

/-! ### Finding a value in a table -/

section Reaches

variable {deps : Deps} (contents : deps.Table → OrdMap LuaKey deps.Value)

/-- The value found by indexing with the keys of a path, one after the other. -/
inductive Reaches : deps.Value → List LuaKey → deps.Value → Prop
  | here (v : deps.Value) : Reaches v [] v
  | index {t : deps.Table} {key : LuaKey} {next w : deps.Value} {path : List LuaKey} :
      (contents t).get key = some next → Reaches next path w →
      Reaches (deps.table t) (key :: path) w

variable {contents}

theorem Reaches.nil {v w : deps.Value} (h : Reaches contents v [] w) : w = v := by
  cases h
  rfl

/-- Only tables are indexed. -/
theorem Reaches.cons {v w : deps.Value} {key : LuaKey} {path : List LuaKey}
    (h : Reaches contents v (key :: path) w) :
    ∃ t next, v = deps.table t ∧ (contents t).get key = some next ∧
      Reaches contents next path w := by
  cases h with
  | @index t _ next _ _ hget hnext => exact ⟨t, next, rfl, hget, hnext⟩

theorem Reaches.unique (V : CoreValues deps) {v w w' : deps.Value} {path : List LuaKey}
    (h : Reaches contents v path w) (h' : Reaches contents v path w') : w = w' := by
  induction h with
  | here v =>
    cases h'
    rfl
  | @index t key next w path hget _ ih =>
    obtain ⟨t', next', hv, hget', h'⟩ := h'.cons
    obtain rfl := V.table_inj t t' hv
    obtain rfl := Option.some.inj (hget.symm.trans hget')
    exact ih h'

theorem imageItems_getElem {vs : List Json} {values : List deps.Value} {i : Nat} {v : Json}
    (h : ImageItems contents vs values) (hv : vs[i]? = some v) :
    ∃ value, values[i]? = some value ∧ Image contents v value := by
  induction vs generalizing values i with
  | nil => cases hv
  | cons x vs ih =>
    obtain ⟨value, rest, rfl, himage, hrest⟩ := h
    rcases i with - | i
    · obtain rfl := Option.some.inj hv
      exact ⟨value, rfl, himage⟩
    · obtain ⟨value', hget, himage'⟩ := ih (i := i) hrest hv
      exact ⟨value', hget, himage'⟩

theorem imageMembers_mem {ms : List (String × Json)} {fields : List (String × deps.Value)}
    {k : String} {v : Json} (h : ImageMembers contents ms fields) (hv : (k, v) ∈ ms)
    (hnull : v.isNull = false) : ∃ value, (k, value) ∈ fields ∧ Image contents v value := by
  induction ms generalizing fields with
  | nil => cases hv
  | cons m ms ih =>
    obtain ⟨key, x⟩ := m
    rcases hx : x.isNull with - | -
    · obtain ⟨value, rest, rfl, himage, hrest⟩ := (imageMembers_cons _ hx).mp h
      rcases List.mem_cons.mp hv with hv | hv
      · cases hv
        exact ⟨value, List.mem_cons_self, himage⟩
      · obtain ⟨value', hmem, himage'⟩ := ih hrest hv
        exact ⟨value', List.mem_cons_of_mem _ hmem, himage'⟩
    · rcases List.mem_cons.mp hv with hv | hv
      · cases hv
        exact absurd hx (by rw [hnull]; exact Bool.false_ne_true)
      · exact ih ((imageMembers_null _ hx).mp h) hv

/-- The fields have the keys of the members, in their order. -/
theorem imageMembers_keys {ms : List (String × Json)} {fields : List (String × deps.Value)}
    (h : ImageMembers contents ms fields) :
    (fields.map Prod.fst).Sublist (ms.map Prod.fst) := by
  induction ms generalizing fields with
  | nil =>
    obtain rfl : fields = [] := h
    exact List.Sublist.slnil
  | cons m ms ih =>
    obtain ⟨key, x⟩ := m
    rcases hx : x.isNull with - | -
    · obtain ⟨value, rest, rfl, -, hrest⟩ := (imageMembers_cons _ hx).mp h
      exact (ih hrest).cons_cons key
    · exact (ih ((imageMembers_null _ hx).mp h)).cons key

theorem mem_numbered {α : Type} {vs : List α} {i : Nat} {v : α} (j : Int) (h : vs[i]? = some v) :
    (LuaKey.integer (j + i), v) ∈ numbered j vs := by
  induction vs generalizing i j with
  | nil => cases h
  | cons x vs ih =>
    rcases i with - | i
    · obtain rfl := Option.some.inj h
      rw [numbered, Int.natCast_zero, Int.add_zero]
      exact List.mem_cons_self
    · have hkey : j + ((i + 1 : Nat) : Int) = (j + 1) + i := by omega
      rw [hkey]
      exact List.mem_cons_of_mem _ (ih (j + 1) h)

theorem get_ofList_sorted {α : Type} {l : List (LuaKey × α)} {key : LuaKey} {v : α}
    (hl : l.Pairwise fun a b => a.1 < b.1) (h : (key, v) ∈ l) :
    (OrdMap.ofList l).get key = some v :=
  (OrdMap.get_ofList (List.Pairwise.map Prod.fst (fun _ _ h => ne_of_lt h) hl)).mpr h

/-- What is at a position of a value is at that position of its image. -/
theorem reaches_image {path : List Json.Step} {v w : Json} {value : deps.Value}
    (hv : v.Ordered) (hpath : v.follow path = some w) (hw : w.isNull = false)
    (h : Image contents v value) :
    ∃ found, Reaches contents value (path.map LuaKey.ofStep) found ∧ Image contents w found := by
  induction path generalizing v value with
  | nil =>
    obtain rfl := Option.some.inj hpath
    exact ⟨value, .here value, h⟩
  | cons s path ih =>
    rcases v with - | b | n | t | items | members
    case arr =>
      rcases s with k | i
      · cases hpath
      · obtain ⟨x, hx, hpath⟩ := Option.bind_eq_some_iff.mp hpath
        obtain ⟨t, values, rfl, hitems, hc⟩ := h
        obtain ⟨next, hnext, himage⟩ := imageItems_getElem hitems hx
        have hordered : x.Ordered := Json.orderedItems_iff.mp hv x (List.mem_of_getElem? hx)
        obtain ⟨found, hreach, hfound⟩ := ih hordered hpath himage
        have hkey : LuaKey.ofStep (.item i) = .integer (1 + i) := by
          rw [LuaKey.ofStep, Int.add_comm]
        have hget : (contents t).get (.ofStep (.item i)) = some next := by
          rw [hc, hkey]
          exact get_ofList_sorted (numbered_sorted 1 values) (mem_numbered 1 hnext)
        exact ⟨found, .index hget hreach, hfound⟩
    case obj =>
      rcases s with k | i
      · obtain ⟨x, hx, hpath⟩ := Option.bind_eq_some_iff.mp hpath
        obtain ⟨t, fields, rfl, hmembers, hc⟩ := h
        have hsorted := hv.1
        have hmem : (k, x) ∈ members := by
          rw [OrdMap.get_eq_some, OrdMap.entries_ofList hsorted] at hx
          exact hx
        obtain ⟨next, hnext, himage⟩ :=
          imageMembers_mem hmembers hmem (Json.isNull_of_follow hpath hw)
        have hordered : x.Ordered := Json.orderedMembers_iff.mp hv.2 (k, x) hmem
        obtain ⟨found, hreach, hfound⟩ := ih hordered hpath himage
        have hfields : fields.Pairwise fun a b => a.1 < b.1 := by
          have hkeys : (members.map Prod.fst).Pairwise (· < ·) := List.pairwise_map.mpr hsorted
          exact List.pairwise_map.mp (hkeys.sublist (imageMembers_keys hmembers))
        have hget : (contents t).get (.ofStep (.key k)) = some next := by
          rw [hc]
          exact get_ofList_sorted (named_sorted hfields)
            (List.mem_map.mpr ⟨(k, next), hnext, rfl⟩)
        exact ⟨found, .index hget hreach, hfound⟩
      · cases hpath
    all_goals
      cases s <;> cases hpath

end Reaches

/-! ### Texts with an object in them -/

/-- A successful result whose only content is a text. -/
def SingleText (result : CallToolResult) (text : String) : Prop :=
  result.content = [.text text] ∧ result.structuredContent = none ∧ result.isError ≠ some true

/-- The table a program gets for a result. -/
def received (deps : Deps) (result : CallToolResult) : Except String deps.Table :=
  (mapResult deps result).bind (jsonToTable deps)

theorem mapResult_object {deps : Deps} {result : CallToolResult} {text : String}
    {members : List (String × Json)} (hr : SingleText result text)
    (h : deps.fromStr text = .ok (.obj members)) :
    mapResult deps result = .ok (.obj members) := by
  obtain ⟨hcontent, hstructured, herror⟩ := hr
  simp only [mapResult, hcontent, hstructured, if_neg herror, h]

theorem mapResult_unread {deps : Deps} {result : CallToolResult} {text e : String}
    (hr : SingleText result text) (h : deps.fromStr text = .error e) :
    mapResult deps result = .ok (.obj [("text", .str text)]) := by
  obtain ⟨hcontent, hstructured, herror⟩ := hr
  simp only [mapResult, hcontent, hstructured, if_neg herror, h]
  show Except.ok (Json.obj [("text", .str (text ++ ""))]) = _
  rw [String.append_empty]

theorem keyword_ne_object {word cs rest : List Char} {v : Json} {members : List (String × Json)}
    (hv : v.isObject = false) : Json.keyword word v cs ≠ some (.obj members, rest) := by
  intro h
  unfold Json.keyword at h
  split_ifs at h
  cases h
  cases hv

/-- An object's text has a brace in it. -/
theorem brace_mem {text : String} {members : List (String × Json)}
    (h : Json.parse text = some (.obj members)) : '{' ∈ text.toList := by
  obtain ⟨⟨v, rest⟩, hv, h⟩ := Option.bind_eq_some_iff.mp h
  have h : (if Json.skipSpace rest = [] then some v else none) = some (.obj members) := h
  split_ifs at h
  obtain rfl := Option.some.inj h
  rw [Json.value] at hv
  rcases hskip : Json.skipSpace text.toList with - | ⟨c, cs⟩
  · rw [hskip] at hv
    cases hv
  · have hmem : c ∈ text.toList := by
      have hc : c ∈ Json.skipSpace text.toList := by rw [hskip]; exact List.mem_cons_self
      exact (List.dropWhile_sublist Json.isSpace).subset hc
    by_cases hc : c = '{'
    · rw [← hc]
      exact hmem
    · -- every other first character begins another kind of value
      rw [hskip] at hv
      simp only [hc, if_false] at hv
      split_ifs at hv
      · split at hv
        · cases hv
        · obtain ⟨x, -, hx⟩ := Option.bind_eq_some_iff.mp hv
          cases hx
      · obtain ⟨x, -, hx⟩ := Option.bind_eq_some_iff.mp hv
        cases hx
      · exact absurd hv (keyword_ne_object rfl)
      · exact absurd hv (keyword_ne_object rfl)
      · exact absurd hv (keyword_ne_object rfl)
      · obtain ⟨x, -, hx⟩ := Option.bind_eq_some_iff.mp hv
        cases hx

/-! ### An integer on its way -/

section Arrive

variable {deps : Deps}

/-- The value is the integer, or spells it in decimal. -/
def ExactInteger (deps : Deps) (value : deps.Value) (z : Int) : Prop :=
  value = deps.integer z ∨
  ∃ l : Json.IntegerLiteral, l.value = z ∧ value = deps.string l.text

/-- The text is read, and its value goes into a table. -/
def Accepted (deps : Deps) (text : String) : Prop :=
  ∃ v, deps.fromStr text = .ok v ∧ v.NoNullElement

/-- A text with an integer literal at a position of its object. -/
structure WrittenAt (text : String) (path : List Json.Step) (l : Json.IntegerLiteral) : Prop where
  object : ∃ members, Json.parse text = some (.obj members) ∧
    Json.follow (.obj members) path = some (.num l.number)

theorem fromStr_ok {text : String} {tree v : Json} (hparse : Json.parse text = some tree)
    (h : deps.fromStr text = .ok v) : tree.toValue deps.double = some v := by
  rw [Deps.fromStr, Json.fromStr, hparse, Option.bind_eq_bind, Option.bind_some] at h
  split_ifs at h
  · rcases hv : tree.toValue deps.double with - | w
    · rw [hv] at h
      cases h
    · rw [hv] at h
      obtain rfl := Except.ok.inj h
      rfl

/-- What is at the place of the literal, by what the literal is. -/
inductive Arrived (deps : Deps) (l : Json.IntegerLiteral) (value : deps.Value) : Prop
  | exactly : l.Held → ExactInteger deps value l.value → Arrived deps l value
  | double (printed : String) : ¬ l.Held → deps.double l.text = some printed →
      value = deps.string printed → Arrived deps l value

/-- The image of the number that the literal is read as. -/
theorem arrived_of_image {contents : deps.Table → OrdMap LuaKey deps.Value}
    {l : Json.IntegerLiteral} {w : Json} {value : deps.Value}
    (hw : Json.toValue deps.double (.num l.number) = some w) (h : Image contents w value) :
    Arrived deps l value := by
  by_cases hheld : l.Held
  · rcases l.number_of_held hheld with ⟨n, hn, hvalue⟩ | ⟨i, hi, hvalue⟩
    · rw [hn] at hw
      obtain rfl := Option.some.inj hw
      rcases hi : JsonNumber.asI64 (.posInt n) with - | i
      · -- beyond `i64`, its digits
        refine .exactly hheld (Or.inr ⟨.ofNat n.toNat, ?_, (image_decimal _ hi).mp h⟩)
        rw [Json.IntegerLiteral.value_ofNat, hvalue]
      · have hz : i = l.value := by
          rw [JsonNumber.asI64] at hi
          split_ifs at hi
          rw [← hvalue, ← Option.some.inj hi]
        refine .exactly hheld (Or.inl ?_)
        rw [← hz]
        exact (image_integer _ hi).mp h
    · rw [hi] at hw
      obtain rfl := Option.some.inj hw
      refine .exactly hheld (Or.inl ?_)
      rw [← hvalue]
      exact (image_integer (i := i.val) _ rfl).mp h
  · rw [l.number_of_not_held hheld] at hw
    obtain ⟨printed, hprinted, rfl⟩ := Option.map_eq_some_iff.mp hw
    refine .double printed hheld hprinted ?_
    have hvalue := (image_decimal (n := .float printed) _ rfl).mp h
    rwa [JsonNumber.chars, String.ofList_toList] at hvalue

/-- An accepted text gives a table, and in it a value at the literal's place. -/
theorem arrives (C : CoreTables deps) {result : CallToolResult} {text : String}
    {path : List Json.Step} {l : Json.IntegerLiteral} (hr : SingleText result text)
    (hw : WrittenAt text path l) (ha : Accepted deps text) :
    ∃ t value, received deps result = .ok t ∧
      Reaches C.contents (deps.table t) (path.map LuaKey.ofStep) value ∧ Arrived deps l value := by
  obtain ⟨v, hv, hn⟩ := ha
  obtain ⟨members, hparse, hpath⟩ := hw.object
  have hvalue : (Json.obj members).toValue deps.double = some v := fromStr_ok hparse hv
  have hordered : v.Ordered := Json.ordered_toValue _ hvalue
  obtain ⟨w, hw, hnumber⟩ := Json.follow_toValue hpath hvalue
  have hnull : w.isNull = false := by
    rcases hl : l.number with n | i | s
    · rw [hl] at hnumber
      obtain rfl := Option.some.inj hnumber
      rfl
    · rw [hl] at hnumber
      obtain rfl := Option.some.inj hnumber
      rfl
    · rw [hl] at hnumber
      obtain ⟨printed, -, rfl⟩ := Option.map_eq_some_iff.mp hnumber
      rfl
  obtain ⟨ms, -, rfl⟩ := Option.map_eq_some_iff.mp hvalue
  obtain ⟨t, fields, ht, himage, hc⟩ :=
    objectToTable_ok C (Json.sortMembers ms) hn deps.newTable
  rw [C.newTable] at hc
  have himage : Image C.contents (.obj (Json.sortMembers ms)) (deps.table t) :=
    ⟨t, fields, rfl, himage, hc⟩
  obtain ⟨value, hreach, hfound⟩ := reaches_image hordered hw hnull himage
  refine ⟨t, value, ?_, hreach, arrived_of_image hnumber hfound⟩
  rw [received, mapResult_object hr hv]
  exact ht

/-- The text of a double spells no integer. -/
theorem not_exactInteger (V : CoreValues deps) (hd : DoubleTexts deps.double)
    {text printed : String} (h : deps.double text = some printed) (z : Int) :
    ¬ ExactInteger deps (deps.string printed) z := by
  rintro (hz | ⟨l, -, hl⟩)
  · exact V.integer_ne_string z printed hz.symm
  · obtain rfl := V.string_inj _ _ hl
    rcases hd text l.text h with hmem | hmem
    · exact l.notMem_text rfl (by decide) hmem
    · exact l.notMem_text rfl (by decide) hmem

/-- Two spellings of one value spell one integer. -/
theorem exactInteger_unique (V : CoreValues deps) {value : deps.Value} {z z' : Int}
    (h : ExactInteger deps value z) (h' : ExactInteger deps value z') : z = z' := by
  rcases h with rfl | ⟨l, rfl, rfl⟩ <;> rcases h' with h' | ⟨l', rfl, h'⟩
  · exact V.integer_inj z z' h'
  · exact absurd h' (V.integer_ne_string z _)
  · exact absurd h'.symm (V.integer_ne_string z' _)
  · exact Json.IntegerLiteral.value_eq_of_text_eq (V.string_inj _ _ h')

/-- A text that is not read is handed over whole, and is no integer. -/
theorem not_exact_of_unread (C : CoreTables deps) (V : CoreValues deps) {result : CallToolResult}
    {text e : String} {path : List Json.Step} {l : Json.IntegerLiteral} {t : deps.Table}
    {value : deps.Value} {z : Int} (hr : SingleText result text) (hw : WrittenAt text path l)
    (he : deps.fromStr text = .error e) (ht : received deps result = .ok t)
    (hreach : Reaches C.contents (deps.table t) (path.map LuaKey.ofStep) value) :
    ¬ ExactInteger deps value z := by
  intro hexact
  obtain ⟨members, hparse, hpath⟩ := hw.object
  rw [received, mapResult_unread hr he] at ht
  obtain ⟨t', fields, ht', himage, hc⟩ :=
    objectToTable_ok C [("text", .str text)] ⟨trivial, trivial⟩ deps.newTable
  obtain rfl : t' = t := Except.ok.inj (ht'.symm.trans ht)
  obtain ⟨found, rest, rfl, hfound, hrest⟩ := (imageMembers_cons _ rfl).mp himage
  obtain rfl : found = deps.string text := hfound
  obtain rfl : rest = [] := hrest
  rw [C.newTable] at hc
  rcases path with - | ⟨s, path⟩
  · cases hpath
  · obtain ⟨t'', next, hv, hget, hnext⟩ := hreach.cons
    obtain rfl := V.table_inj _ _ hv
    have hentry : (LuaKey.ofStep s, next) ∈ (C.contents t').entries := OrdMap.get_eq_some.mp hget
    rw [hc] at hentry
    obtain ⟨-, rfl⟩ := Prod.mk.inj (List.mem_singleton.mp hentry)
    rcases path with - | ⟨s', path⟩
    · -- the whole text in the place of a number
      obtain rfl := hnext.nil
      rcases hexact with hz | ⟨l', -, hl'⟩
      · exact V.integer_ne_string z text hz.symm
      · have hbrace := brace_mem hparse
        rw [V.string_inj _ _ hl'] at hbrace
        exact l'.notMem_text rfl (by decide) hbrace
    · obtain ⟨t₁, -, hs, -, -⟩ := hnext.cons
      exact V.string_ne_table _ _ hs

/-- The literal arrives as its integer if and only if its text is read and
mapped, and it is the literal of a 64-bit integer. -/
theorem exact_iff (C : CoreTables deps) (V : CoreValues deps) (hd : DoubleTexts deps.double)
    {result : CallToolResult} {text : String} {path : List Json.Step} {l : Json.IntegerLiteral}
    (hr : SingleText result text) (hw : WrittenAt text path l) :
    (∃ t value, received deps result = .ok t ∧
      Reaches C.contents (deps.table t) (path.map LuaKey.ofStep) value ∧
      ExactInteger deps value l.value) ↔ Accepted deps text ∧ l.Held := by
  constructor
  · rintro ⟨t, value, ht, hreach, hexact⟩
    rcases hv : deps.fromStr text with e | v
    · exact absurd hexact (not_exact_of_unread C V hr hw hv ht hreach)
    · obtain ⟨members, hparse, hpath⟩ := hw.object
      obtain ⟨ms, -, rfl⟩ := Option.map_eq_some_iff.mp (fromStr_ok hparse hv)
      have hmapped : jsonToTable deps (.obj (Json.sortMembers ms)) = .ok t := by
        rw [received, mapResult_object hr hv] at ht
        exact ht
      have ha : Accepted deps text := ⟨_, hv, noNullInMembers_of_objectToTable _ hmapped⟩
      obtain ⟨t', value', ht', hreach', harrived⟩ := arrives C hr hw ha
      obtain rfl : t = t' := Except.ok.inj (ht.symm.trans ht')
      obtain rfl := hreach.unique V hreach'
      cases harrived with
      | exactly hheld _ => exact ⟨ha, hheld⟩
      | double printed _ hprinted hvalue =>
        rw [hvalue] at hexact
        exact absurd hexact (not_exactInteger V hd hprinted l.value)
  · rintro ⟨ha, hheld⟩
    obtain ⟨t, value, ht, hreach, harrived⟩ := arrives C hr hw ha
    cases harrived with
    | exactly _ hexact => exact ⟨t, value, ht, hreach, hexact⟩
    | double _ hnot _ _ => exact absurd hheld hnot

/-- Different integers at one place arrive as one value if and only if neither
is held and both round to one double. -/
theorem same_iff (C : CoreTables deps) (V : CoreValues deps) (hd : DoubleTexts deps.double)
    {result result' : CallToolResult} {text text' : String} {path : List Json.Step}
    {l l' : Json.IntegerLiteral} {t t' : deps.Table} (hr : SingleText result text)
    (hr' : SingleText result' text') (hw : WrittenAt text path l) (hw' : WrittenAt text' path l')
    (ha : Accepted deps text) (ha' : Accepted deps text') (ht : received deps result = .ok t)
    (ht' : received deps result' = .ok t') (hne : l.value ≠ l'.value) :
    (∃ value, Reaches C.contents (deps.table t) (path.map LuaKey.ofStep) value ∧
      Reaches C.contents (deps.table t') (path.map LuaKey.ofStep) value) ↔
    ¬ l.Held ∧ ¬ l'.Held ∧ deps.double l.text = deps.double l'.text := by
  obtain ⟨t₁, v, ht₁, hreach, harrived⟩ := arrives C hr hw ha
  obtain rfl : t = t₁ := Except.ok.inj (ht.symm.trans ht₁)
  obtain ⟨t₂, v', ht₂, hreach', harrived'⟩ := arrives C hr' hw' ha'
  obtain rfl : t' = t₂ := Except.ok.inj (ht'.symm.trans ht₂)
  constructor
  · rintro ⟨value, h, h'⟩
    obtain rfl := h.unique V hreach
    obtain rfl := h'.unique V hreach'
    cases harrived with
    | exactly hheld hexact =>
      cases harrived' with
      | exactly _ hexact' => exact absurd (exactInteger_unique V hexact hexact') hne
      | double printed _ hprinted hvalue =>
        rw [hvalue] at hexact
        exact absurd hexact (not_exactInteger V hd hprinted l.value)
    | double printed hnot hprinted hvalue =>
      cases harrived' with
      | exactly _ hexact' =>
        rw [hvalue] at hexact'
        exact absurd hexact' (not_exactInteger V hd hprinted l'.value)
      | double printed' hnot' hprinted' hvalue' =>
        refine ⟨hnot, hnot', ?_⟩
        rw [hprinted, hprinted', V.string_inj _ _ (hvalue.symm.trans hvalue')]
  · rintro ⟨hnot, hnot', hsame⟩
    cases harrived with
    | exactly hheld _ => exact absurd hheld hnot
    | double printed _ hprinted hvalue =>
      cases harrived' with
      | exactly hheld' _ => exact absurd hheld' hnot'
      | double printed' _ hprinted' hvalue' =>
        have hprint : printed = printed' :=
          Option.some.inj (hprinted.symm.trans (hsame.trans hprinted'))
        refine ⟨v, hreach, ?_⟩
        rw [hvalue, hprint, ← hvalue']
        exact hreach'

end Arrive

/-- Which integers of a tool's answer reach the program as they are. -/
theorem integers_kept {deps : Deps} (C : CoreTables deps) (V : CoreValues deps)
    (hd : DoubleTexts deps.double) {result : CallToolResult} {text : String}
    {path : List Json.Step} {l : Json.IntegerLiteral} (hr : SingleText result text)
    (hw : WrittenAt text path l) :
    ((∃ t value, received deps result = .ok t ∧
      Reaches C.contents (deps.table t) (path.map LuaKey.ofStep) value ∧
      ExactInteger deps value l.value) ↔ Accepted deps text ∧ l.Held) ∧
    ∀ {result' : CallToolResult} {text' : String} {l' : Json.IntegerLiteral} {t t' : deps.Table},
      SingleText result' text' → WrittenAt text' path l' → l.value ≠ l'.value →
      Accepted deps text → Accepted deps text' →
      received deps result = .ok t → received deps result' = .ok t' →
      ((∃ value, Reaches C.contents (deps.table t) (path.map LuaKey.ofStep) value ∧
          Reaches C.contents (deps.table t') (path.map LuaKey.ofStep) value) ↔
        ¬ l.Held ∧ ¬ l'.Held ∧ deps.double l.text = deps.double l'.text) :=
  ⟨exact_iff C V hd hr hw, fun hr' hw' hne ha ha' ht ht' =>
    same_iff C V hd hr hr' hw hw' ha ha' ht ht' hne⟩

section Examples

open Reference Json.IntegerLiteral

theorem nestedValues (double : String → Option String) : CoreValues (nestedCore double) where
  integer_inj _ _ h := Nested.integer.inj h
  string_inj _ _ h := Nested.string.inj h
  table_inj _ _ h := Nested.table.inj h
  integer_ne_string _ _ h := nomatch h
  string_ne_table _ _ h := nomatch h

/-- The text of the double 2^64, to which both of these integers round. -/
def weiDouble (text : String) : Option String :=
  if text = (ofNat (2 ^ 64)).text ∨ text = (ofNat (2 ^ 64 + 1)).text then
    some "1.8446744073709552e19"
  else none

theorem weiDouble_texts : DoubleTexts weiDouble := by
  intro text printed h
  unfold weiDouble at h
  split_ifs at h
  obtain rfl := Option.some.inj h
  exact Or.inl (by decide)

/-- A tool's answer that is one text. -/
def textResult (text : String) : CallToolResult := ⟨[.text text], none, none, none⟩

theorem textResult_single (text : String) : SingleText (textResult text) text :=
  ⟨rfl, rfl, by intro h; cases h⟩

theorem member_writtenAt (l : Json.IntegerLiteral) :
    WrittenAt (l.memberText "wei") [.key "wei"] l :=
  ⟨⟨_, l.parse_memberText "wei", rfl⟩⟩

theorem fromStr_member {double : String → Option String} {l : Json.IntegerLiteral} {w : Json}
    (h : Json.toValue double (.num l.number) = some w) :
    (nestedCore double).fromStr (l.memberText "wei") = .ok (.obj [("wei", w)]) := by
  have hvalue : Json.toValue double (.obj [("wei", .num l.number)]) =
      some (.obj [("wei", w)]) := by
    rw [Json.toValue, Json.toMembers, h]
    rfl
  have hdepth : Json.depth (.obj [("wei", .num l.number)]) ≤ Json.recursionLimit :=
    show max 0 0 + 1 ≤ 127 by decide
  have hread : Json.fromStr (nestedCore double).double (l.memberText "wei") =
      some (.obj [("wei", w)]) := by
    rw [Json.fromStr, l.parse_memberText, Option.bind_eq_bind, Option.bind_some, if_pos hdepth]
    exact hvalue
  rw [Deps.fromStr, hread]

/-- The first integer beyond `i64` arrives, as its digits. -/
theorem integers_kept_beyond_i64 :
    ∃ t value, received (nestedCore weiDouble) (textResult ((ofNat (2 ^ 63)).memberText "wei")) =
        .ok t ∧
      Reaches (nestedTables weiDouble).contents ((nestedCore weiDouble).table t) [.string "wei"]
        value ∧
      ExactInteger (nestedCore weiDouble) value (2 ^ 63) := by
  have hheld : (ofNat (2 ^ 63)).Held := by
    refine ⟨?_, ?_, fun h => nomatch h.1⟩ <;> rw [value_ofNat] <;> decide
  obtain ⟨n, hn⟩ : ∃ n, Json.toValue weiDouble (.num (ofNat (2 ^ 63)).number) = some (.num n) := by
    rcases number_of_held _ hheld with ⟨n, hn, -⟩ | ⟨i, hi, -⟩
    · exact ⟨_, by rw [hn]; rfl⟩
    · exact ⟨_, by rw [hi]; rfl⟩
  have haccepted : Accepted (nestedCore weiDouble) ((ofNat (2 ^ 63)).memberText "wei") :=
    ⟨_, fromStr_member hn, trivial, trivial⟩
  have hkept := (integers_kept (nestedTables weiDouble) (nestedValues weiDouble) weiDouble_texts
    (textResult_single _) (member_writtenAt (ofNat (2 ^ 63)))).1.mpr ⟨haccepted, hheld⟩
  rw [value_ofNat] at hkept
  exact hkept

/-- Two amounts beyond `u64` arrive as one text, which is neither. -/
theorem amounts_beyond_u64 :
    received (nestedCore weiDouble) (textResult ((ofNat (2 ^ 64)).memberText "wei")) =
      .ok [(.string "wei", .string "1.8446744073709552e19")] ∧
    received (nestedCore weiDouble) (textResult ((ofNat (2 ^ 64 + 1)).memberText "wei")) =
      .ok [(.string "wei", .string "1.8446744073709552e19")] ∧
    ∀ z, ¬ ExactInteger (nestedCore weiDouble) (.string "1.8446744073709552e19") z := by
  have hdouble : ∀ n, n = 2 ^ 64 ∨ n = 2 ^ 64 + 1 →
      weiDouble (ofNat n).text = some "1.8446744073709552e19" := by
    rintro n (rfl | rfl)
    · exact if_pos (Or.inl rfl)
    · exact if_pos (Or.inr rfl)
  have hreceived : ∀ n, n = 2 ^ 64 ∨ n = 2 ^ 64 + 1 →
      received (nestedCore weiDouble) (textResult ((ofNat n).memberText "wei")) =
        .ok [(.string "wei", .string "1.8446744073709552e19")] := by
    intro n hn
    have hnot : ¬ (ofNat n).Held := by
      rintro ⟨-, hhi, -⟩
      rw [value_ofNat] at hhi
      omega
    have hvalue : Json.toValue weiDouble (.num (ofNat n).number) =
        some (.num (.float "1.8446744073709552e19")) := by
      rw [number_of_not_held _ hnot, Json.toValue, hdouble n hn]
      rfl
    rw [received, mapResult_object (textResult_single _) (fromStr_member hvalue)]
    rfl
  exact ⟨hreceived _ (Or.inl rfl), hreceived _ (Or.inr rfl),
    not_exactInteger (nestedValues weiDouble) weiDouble_texts (hdouble _ (Or.inl rfl))⟩

end Examples

end ProvenoGateway
