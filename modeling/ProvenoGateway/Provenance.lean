/-
ProvenoGateway/Provenance.lean

What `read_provenance` accepts, and what its attestation blob says.

The members of an accepted report are, in some order, those of the provenance
it denotes (`report_perm`): every field of the tag is there once with its
value, and no other.  So the blob, the report with its keys sorted, reads
back as that provenance.
-/
import ProvenoGateway.Downstream

namespace ProvenoGateway

/-- The members a provenance is written with. -/
def Provenance.members (p : Provenance) : List (String × Json) := p.toJson.asObject.getD []

theorem Provenance.toJson_eq (p : Provenance) : p.toJson = .obj p.members := by
  cases p <;> rfl

theorem Provenance.members_nodup (p : Provenance) : (p.members.map Prod.fst).Nodup := by
  cases p <;> simp [members, toJson, Json.asObject]

/-- A report that reads as a provenance has each of its members once. -/
theorem Provenance.member_of_fromJson {ms : List (String × Json)} {p : Provenance}
    (h : fromJson (.obj ms) = some p) :
    ∀ f ∈ p.members, Serde.member ms f.1 = some (some f.2) := by
  have hm : ∀ name, name ≠ "type" →
      Serde.member (ms.filter (·.1 != "type")) name = Serde.member ms name :=
    fun _ hn => Serde.member_filter_ne hn
  unfold fromJson at h
  obtain ⟨⟨t, rest⟩, ht, h⟩ := Option.bind_eq_some_iff.mp h
  obtain ⟨htag, rfl⟩ := Serde.tagged_obj ht
  clear ht
  split at h
  case h_1 heq =>
    cases heq
    cases h
    simpa [members, toJson, Json.asObject] using htag
  case h_2 heq =>
    cases heq
    obtain ⟨fields, hf, h⟩ := Option.bind_eq_some_iff.mp h
    split at h
    case h_2 => cases h
    obtain ⟨s₁, h₁, h⟩ := Option.bind_eq_some_iff.mp h
    obtain ⟨s₂, h₂, h⟩ := Option.bind_eq_some_iff.mp h
    cases h
    obtain rfl := Serde.required_asStr h₁
    obtain rfl := Serde.required_asStr h₂
    have hf := Serde.struct_obj hf
    simp only [List.forall₂_cons, hm "by" (by decide), hm "sig" (by decide)] at hf
    simp [members, toJson, Json.asObject, htag, hf.1, hf.2.1]
  case h_3 heq =>
    cases heq
    obtain ⟨fields, hf, h⟩ := Option.bind_eq_some_iff.mp h
    split at h
    case h_2 => cases h
    obtain ⟨s₁, h₁, h⟩ := Option.bind_eq_some_iff.mp h
    obtain ⟨n, h₂, h⟩ := Option.bind_eq_some_iff.mp h
    obtain ⟨s₃, h₃, h⟩ := Option.bind_eq_some_iff.mp h
    cases h
    obtain rfl := Serde.required_asStr h₁
    obtain rfl := Serde.required_asU64 h₂
    obtain rfl := Serde.required_asStr h₃
    have hf := Serde.struct_obj hf
    simp only [List.forall₂_cons, hm "chain" (by decide), hm "block" (by decide),
      hm "reference" (by decide)] at hf
    simp [members, toJson, Json.asObject, htag, hf.1, hf.2.1, hf.2.2.1]
  case h_4 heq =>
    cases heq
    obtain ⟨fields, hf, h⟩ := Option.bind_eq_some_iff.mp h
    split at h
    case h_2 => cases h
    obtain ⟨s₁, h₁, h⟩ := Option.bind_eq_some_iff.mp h
    obtain ⟨s₂, h₂, h⟩ := Option.bind_eq_some_iff.mp h
    cases h
    obtain rfl := Serde.required_asStr h₁
    obtain rfl := Serde.required_asStr h₂
    have hf := Serde.struct_obj hf
    simp only [List.forall₂_cons, hm "scheme" (by decide), hm "reference" (by decide)] at hf
    simp [members, toJson, Json.asObject, htag, hf.1, hf.2.1]
  case h_5 => cases h

/-- A report with no member beyond those of the provenance it denotes has
exactly these. -/
theorem Provenance.report_perm {ms : List (String × Json)} {p : Provenance}
    (h : fromJson (.obj ms) = some p) (hkeys : ∀ m ∈ ms, m.1 ∈ p.members.map Prod.fst) :
    ms.Perm p.members :=
  Serde.perm_of_member p.members ms p.members_nodup (member_of_fromJson h) hkeys

/-- Reading a provenance does not depend on the order of the members. -/
theorem Provenance.fromJson_perm {ms ms' : List (String × Json)} (h : ms.Perm ms') :
    fromJson (.obj ms) = fromJson (.obj ms') := by
  have hstruct : ∀ names, Serde.struct names (.obj (ms.filter (·.1 != "type"))) =
      Serde.struct names (.obj (ms'.filter (·.1 != "type"))) :=
    Serde.struct_perm (h.filter _)
  unfold fromJson Serde.tagged
  dsimp only
  rw [← Serde.member_perm h "type"]
  cases Serde.member ms "type" with
  | none => rfl
  | some field =>
    cases field with
    | none => rfl
    | some v =>
      cases v with
      | str t =>
        simp only [Option.bind_eq_bind, Option.bind_some]
        split <;> simp_all
      | _ => rfl

/-! ### The blob -/

theorem sortMembers_perm {ms : List (String × Json)} (h : (ms.map Prod.fst).Nodup) :
    (Json.sortMembers ms).Perm ms := OrdMap.ofList_perm h

/-- A provenance as JSON with its keys sorted reads back. -/
theorem Provenance.read_sorted {ms : List (String × Json)} {p : Provenance}
    (h : ms.Perm p.members) : (Json.readSlice (canonicalJson ms)).bind fromJson = some p := by
  have hnd : (ms.map Prod.fst).Nodup := (h.map Prod.fst).nodup_iff.mpr p.members_nodup
  have hperm : (Json.sortMembers ms).Perm p.members := (sortMembers_perm hnd).trans h
  have hvalues : ∀ m ∈ p.members, m.2.Exact ∧ m.2.depth = 0 := by
    cases p <;> simp [members, toJson, Json.asObject]
  have hexact : ∀ l : List (String × Json), (∀ m ∈ l, m.2.Exact ∧ m.2.depth = 0) →
      Json.ExactMembers l ∧ Json.depthMembers l = 0 := by
    intro l hl
    induction l with
    | nil => simp [Json.ExactMembers, Json.depthMembers]
    | cons m l ih =>
      have hm := hl m List.mem_cons_self
      have hi := ih fun m' hm' => hl m' (List.mem_cons_of_mem _ hm')
      simp [Json.ExactMembers, Json.depthMembers, hm, hi]
  obtain ⟨he, hd⟩ := hexact _ fun m hm => hvalues m (hperm.mem_iff.mp hm)
  have hread : Json.readSlice (canonicalJson ms) = some (.obj (Json.sortMembers ms)) := by
    refine Json.readSlice_toVec (by simpa [Json.Exact] using he) ?_
    simp [Json.depth, hd, Json.recursionLimit]
  rw [hread, Option.bind_some, fromJson_perm hperm, ← p.toJson_eq, fromJson_toJson]

/-- The fields of the tag have something in them. -/
def Provenance.Filled : Provenance → Prop
  | unsigned => True
  | signed by_ sig => by_ ≠ "" ∧ sig ≠ ""
  | onchain chain _ reference => chain ≠ "" ∧ reference ≠ ""
  | notarized scheme reference => scheme ≠ "" ∧ reference ≠ ""

theorem Provenance.filled_iff {p : Provenance} :
    p.Filled ↔ ∀ m ∈ p.members, m.2.asStr ≠ some "" := by
  cases p <;> simp [Filled, members, toJson, Json.asObject, Json.asStr, Serde.num]

/-- The attestation that goes with a provenance. -/
def Provenance.blob : Provenance → ByteArray
  | unsigned => ByteArray.empty
  | p => canonicalJson p.members

theorem Provenance.blob_eq {p : Provenance} (h : p ≠ .unsigned) : p.blob = canonicalJson p.members := by
  cases p with
  | unsigned => exact absurd rfl h
  | _ => rfl

/-- The order of the members of a report does not matter. -/
theorem canonicalJson_perm {ms : List (String × Json)} {p : Provenance} (h : ms.Perm p.members) :
    canonicalJson ms = canonicalJson p.members := by
  have hnd : (ms.map Prod.fst).Nodup := (h.map Prod.fst).nodup_iff.mpr p.members_nodup
  unfold canonicalJson Json.sortMembers
  rw [OrdMap.ofList_eq_of_perm h hnd]

/-- The value under the reserved key. -/
def reportOf (meta_ : Option (List (String × Json))) : Option Json :=
  meta_.bind fun m => Json.lookup m provenanceMetaKey

/-- A report with exactly the members of a filled provenance is accepted. -/
theorem readProvenance_report {deps : Deps} {meta_ : Option (List (String × Json))}
    {ms : List (String × Json)} {p : Provenance} (hms : reportOf meta_ = some (.obj ms))
    (hperm : ms.Perm p.members) (hfilled : p.Filled) :
    readProvenance deps meta_ = .ok (p, p.blob) := by
  have hread : Provenance.fromJson (.obj ms) = some p := by
    rw [Provenance.fromJson_perm hperm, ← p.toJson_eq, Provenance.fromJson_toJson]
  have hsorted := sortMembers_perm p.members_nodup
  have hunknown : ((ms.map Prod.fst).filter fun k =>
      !((Json.sortMembers p.members).map Prod.fst).contains k) = [] := by
    rw [List.filter_eq_nil_iff]
    intro k hk
    have hmem : k ∈ (Json.sortMembers p.members).map Prod.fst :=
      (hsorted.map Prod.fst).mem_iff.mpr ((hperm.map Prod.fst).mem_iff.mp hk)
    simpa using hmem
  have hempty : (Json.sortMembers p.members).find? (fun m => m.2.asStr = some "") = none := by
    rw [List.find?_eq_none]
    intro m hm
    simpa using Provenance.filled_iff.mp hfilled m (hsorted.mem_iff.mp hm)
  unfold readProvenance
  rw [show (meta_.bind fun m => Json.lookup m provenanceMetaKey) = some (.obj ms) from hms]
  dsimp only
  rw [hread]
  dsimp only
  rw [show p.toJson.asObject.getD [] = p.members from rfl, hunknown, hempty, if_neg (not_not.mpr rfl)]
  cases p with
  | unsigned => rfl
  | _ =>
    dsimp only
    rw [canonicalJson_perm hperm]
    rfl

/-- What an accepted report is. -/
theorem readProvenance_eq_ok {deps : Deps} {meta_ : Option (List (String × Json))} {p : Provenance}
    {attestation : ByteArray} (h : readProvenance deps meta_ = .ok (p, attestation)) :
    attestation = p.blob ∧ (reportOf meta_ = none ∧ p = .unsigned ∨
      ∃ ms, reportOf meta_ = some (.obj ms) ∧ ms.Perm p.members ∧ p.Filled) := by
  unfold readProvenance at h
  split at h
  case h_1 hnone =>
    cases h
    exact ⟨rfl, Or.inl ⟨hnone, rfl⟩⟩
  case h_3 => cases h
  case h_2 reported hreported =>
    split at h
    case h_1 => cases h
    case h_2 q hq =>
      dsimp only at h
      split at h
      case isTrue => cases h
      case isFalse hunknown =>
        have hsorted := sortMembers_perm q.members_nodup
        have hkeys : ∀ m ∈ reported, m.1 ∈ q.members.map Prod.fst := by
          intro m hm
          by_contra hnot
          refine hunknown (List.ne_nil_of_mem (a := m.1) ?_)
          refine List.mem_filter.mpr ⟨List.mem_map_of_mem hm, ?_⟩
          simp only [Bool.not_eq_eq_eq_not, Bool.not_true, List.contains_eq_mem,
            decide_eq_false_iff_not]
          exact fun hin => hnot ((hsorted.map Prod.fst).mem_iff.mp hin)
        have hperm := Provenance.report_perm hq hkeys
        split at h
        case h_1 => cases h
        case h_2 hempty =>
          have hfilled : q.Filled := by
            rw [Provenance.filled_iff]
            intro m hm
            simpa using List.find?_eq_none.mp hempty m (hsorted.mem_iff.mpr hm)
          have hreport : reportOf meta_ = some (.obj reported) := hreported
          split at h
          case h_1 =>
            cases h
            exact ⟨rfl, Or.inr ⟨reported, hreport, hperm, hfilled⟩⟩
          case h_2 hne =>
            cases h
            refine ⟨?_, Or.inr ⟨reported, hreport, hperm, hfilled⟩⟩
            rw [Provenance.blob_eq hne, canonicalJson_perm hperm]

/-- What an accepted report gives. -/
inductive Reported : Provenance → ByteArray → Prop
  | unsigned : Reported .unsigned ByteArray.empty
  | attested {p : Provenance} {ms : List (String × Json)} :
      p ≠ .unsigned → ms.Perm p.members → Reported p (canonicalJson ms)

/-- **What `read_provenance` accepts.** -/
theorem readProvenance_ok {deps : Deps} {meta_ : Option (List (String × Json))} {p : Provenance}
    {attestation : ByteArray} (h : readProvenance deps meta_ = .ok (p, attestation)) :
    Reported p attestation := by
  obtain ⟨rfl, -⟩ := readProvenance_eq_ok h
  by_cases hp : p = .unsigned
  · rw [hp]
    exact .unsigned
  · rw [Provenance.blob_eq hp]
    exact .attested hp (List.Perm.refl _)

/-- A non-empty text is a non-empty blob. -/
theorem canonicalJson_ne_empty (ms : List (String × Json)) : canonicalJson ms ≠ ByteArray.empty := by
  intro h
  have hread := congrArg String.fromUTF8? h
  rw [canonicalJson, Json.toVec, Json.fromUTF8_toUTF8] at hread
  have hempty : String.fromUTF8? ByteArray.empty = some "" := Json.fromUTF8_toUTF8 ""
  rw [hempty, Option.some.injEq, Json.print, Json.chars] at hread
  exact absurd (congrArg String.toList hread) (by simp)

/-- The blob is empty exactly for `Unsigned`. -/
theorem Reported.empty_iff {p : Provenance} {attestation : ByteArray}
    (h : Reported p attestation) : attestation = ByteArray.empty ↔ p = .unsigned := by
  cases h with
  | unsigned => simp
  | attested hne _ => simp [canonicalJson_ne_empty, hne]

/-- A blob that is not empty reads back as the provenance. -/
theorem Reported.read {p : Provenance} {attestation : ByteArray} (h : Reported p attestation)
    (hne : attestation ≠ ByteArray.empty) :
    (Json.readSlice attestation).bind Provenance.fromJson = some p := by
  cases h with
  | unsigned => exact absurd rfl hne
  | attested _ hperm => exact Provenance.read_sorted hperm

/-! ### Reports -/

/-- The report of a provenance, field by field: the tag's own fields, with
something in them. -/
inductive Report : Provenance → List (String × Json) → Prop
  | unsigned : Report .unsigned [("type", .str "unsigned")]
  | signed (by_ sig : String) : by_ ≠ "" → sig ≠ "" →
      Report (.signed by_ sig) [("type", .str "signed"), ("by", .str by_), ("sig", .str sig)]
  | onchain (chain : String) (block : UInt64) (reference : String) : chain ≠ "" → reference ≠ "" →
      Report (.onchain chain block reference)
        [("type", .str "onchain"), ("chain", .str chain), ("block", .num (.posInt block)),
          ("reference", .str reference)]
  | notarized (scheme reference : String) : scheme ≠ "" → reference ≠ "" →
      Report (.notarized scheme reference)
        [("type", .str "notarized"), ("scheme", .str scheme), ("reference", .str reference)]

theorem report_iff {p : Provenance} {fields : List (String × Json)} :
    Report p fields ↔ fields = p.members ∧ p.Filled := by
  constructor
  · intro h
    cases h with
    | unsigned => exact ⟨rfl, trivial⟩
    | signed by_ sig hby hsig => exact ⟨rfl, hby, hsig⟩
    | onchain chain block reference hchain hreference => exact ⟨rfl, hchain, hreference⟩
    | notarized scheme reference hscheme hreference => exact ⟨rfl, hscheme, hreference⟩
  · rintro ⟨rfl, h⟩
    cases p with
    | unsigned => exact .unsigned
    | signed by_ sig => exact .signed by_ sig h.1 h.2
    | onchain chain block reference => exact .onchain chain block reference h.1 h.2
    | notarized scheme reference => exact .notarized scheme reference h.1 h.2

/-- The members are those of a report of `p`, in any order. -/
def Reports (ms : List (String × Json)) (p : Provenance) : Prop :=
  ∃ fields, Report p fields ∧ ms.Perm fields

theorem reports_iff {ms : List (String × Json)} {p : Provenance} :
    Reports ms p ↔ ms.Perm p.members ∧ p.Filled := by
  constructor
  · rintro ⟨fields, hreport, hperm⟩
    obtain ⟨rfl, hfilled⟩ := report_iff.mp hreport
    exact ⟨hperm, hfilled⟩
  · rintro ⟨hperm, hfilled⟩
    exact ⟨p.members, report_iff.mpr ⟨rfl, hfilled⟩, hperm⟩

/-- What becomes of the metadata of one result. -/
structure ReadExactly (deps : Deps) (meta_ : Option (List (String × Json))) : Prop where
  accepted : (∃ r, readProvenance deps meta_ = .ok r) ↔
    reportOf meta_ = none ∨ ∃ ms p, reportOf meta_ = some (.obj ms) ∧ Reports ms p
  absent : reportOf meta_ = none → readProvenance deps meta_ = .ok (.unsigned, ByteArray.empty)
  unsigned : ∀ ms, reportOf meta_ = some (.obj ms) → Reports ms .unsigned →
    readProvenance deps meta_ = .ok (.unsigned, ByteArray.empty)
  /-- The blob is the compact JSON of the provenance, its keys sorted. -/
  attested : ∀ ms p, reportOf meta_ = some (.obj ms) → Reports ms p → p ≠ .unsigned →
    readProvenance deps meta_ = .ok (p, canonicalJson p.members)
  reordered : ∀ ms ms' r, reportOf meta_ = some (.obj ms) → ms.Perm ms' →
    readProvenance deps meta_ = .ok r →
    readProvenance deps (some [(provenanceMetaKey, .obj ms')]) = .ok r
  malformed : ∀ v, reportOf meta_ = some v → (¬ ∃ ms p, v = .obj ms ∧ Reports ms p) →
    ∃ e, readProvenance deps meta_ = .error e

theorem reportOf_single (v : Json) : reportOf (some [(provenanceMetaKey, v)]) = some v := by
  show Json.lookup [(provenanceMetaKey, v)] provenanceMetaKey = some v
  rw [Json.lookup_cons, if_pos rfl]

theorem readExactly (deps : Deps) (meta_ : Option (List (String × Json))) :
    ReadExactly deps meta_ := by
  have habsent : reportOf meta_ = none →
      readProvenance deps meta_ = .ok (.unsigned, ByteArray.empty) := by
    intro hnone
    unfold readProvenance
    rw [show (meta_.bind fun m => Json.lookup m provenanceMetaKey) = none from hnone]
  have haccepted : (∃ r, readProvenance deps meta_ = .ok r) ↔
      reportOf meta_ = none ∨ ∃ ms p, reportOf meta_ = some (.obj ms) ∧ Reports ms p := by
    constructor
    · rintro ⟨⟨p, attestation⟩, h⟩
      obtain ⟨-, ⟨hnone, -⟩ | ⟨ms, hms, hperm, hfilled⟩⟩ := readProvenance_eq_ok h
      · exact Or.inl hnone
      · exact Or.inr ⟨ms, p, hms, reports_iff.mpr ⟨hperm, hfilled⟩⟩
    · rintro (hnone | ⟨ms, p, hms, hreports⟩)
      · exact ⟨_, habsent hnone⟩
      · obtain ⟨hperm, hfilled⟩ := reports_iff.mp hreports
        exact ⟨_, readProvenance_report hms hperm hfilled⟩
  refine ⟨haccepted, habsent, ?_, ?_, ?_, ?_⟩
  · intro ms hms hreports
    obtain ⟨hperm, hfilled⟩ := reports_iff.mp hreports
    exact readProvenance_report hms hperm hfilled
  · intro ms p hms hreports hp
    obtain ⟨hperm, hfilled⟩ := reports_iff.mp hreports
    rw [← Provenance.blob_eq hp]
    exact readProvenance_report hms hperm hfilled
  · rintro ms ms' ⟨p, attestation⟩ hms hms' h
    obtain ⟨rfl, ⟨hnone, -⟩ | ⟨ms₁, hms₁, hperm, hfilled⟩⟩ := readProvenance_eq_ok h
    · rw [hms] at hnone
      cases hnone
    · rw [hms] at hms₁
      cases hms₁
      exact readProvenance_report (reportOf_single _) (hms'.symm.trans hperm) hfilled
  · intro v hv hnot
    cases hr : readProvenance deps meta_ with
    | error e => exact ⟨e, rfl⟩
    | ok r =>
      rcases haccepted.mp ⟨r, hr⟩ with hnone | ⟨ms, p, hms, hreports⟩
      · rw [hv] at hnone
        cases hnone
      · rw [hv] at hms
        exact absurd ⟨ms, p, Option.some.inj hms, hreports⟩ hnot

/-- Filled provenances have blobs of their own. -/
theorem Provenance.blob_inj {p q : Provenance} (h : p.blob = q.blob) : p = q := by
  by_cases hp : p = .unsigned
  · by_cases hq : q = .unsigned
    · rw [hp, hq]
    · rw [hp, blob_eq hq] at h
      exact absurd h.symm (canonicalJson_ne_empty _)
  · by_cases hq : q = .unsigned
    · rw [hq, blob_eq hp] at h
      exact absurd h (canonicalJson_ne_empty _)
    · rw [blob_eq hp, blob_eq hq] at h
      have hread := read_sorted (List.Perm.refl p.members)
      rw [h, read_sorted (List.Perm.refl q.members)] at hread
      exact (Option.some.inj hread).symm

/-- Reports are accepted exactly and encoded canonically: any metadata is read
as `ReadExactly` says, the report of a filled provenance is read as that
provenance, and different provenances have different blobs. -/
theorem reports_read_exactly (deps : Deps) :
    (∀ meta_, ReadExactly deps meta_) ∧
    (∀ p : Provenance, p.Filled →
      readProvenance deps (some [(provenanceMetaKey, p.toJson)]) = .ok (p, p.blob)) ∧
    ∀ p q : Provenance, p.blob = q.blob → p = q := by
  refine ⟨readExactly deps, ?_, fun p q => Provenance.blob_inj⟩
  intro p hfilled
  have hreport : reportOf (some [(provenanceMetaKey, p.toJson)]) = some (.obj p.members) := by
    rw [reportOf_single, p.toJson_eq]
  exact readProvenance_report hreport (List.Perm.refl _) hfilled

end ProvenoGateway
