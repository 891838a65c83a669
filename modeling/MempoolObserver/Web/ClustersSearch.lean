import MempoolObserver.Web.ClusterMetrics
import MempoolObserver.Web.DataTable

/-!
# The clusters page in the URL

The page's config travels in the URL as single-letter keys with single-letter codes. A
search the router hands over is healed key by key, written back with the same keys, and
patched when the user changes something.

Enum codes are looked up in plain objects, so a code that is the name of a member every
object inherits finds that member instead of nothing. It is truthy, so the fallback is
not taken, and the config holds something that is no enum name at all.

## Main definitions

* `decodeClustersSearch`, `encodeClustersSearch` — URL to config and back
* `validateClustersSearch`, `patchClustersSearch` — what the router and the page apply
* `Legal` — the configs the page understands
* `Plain` — the searches that carry no inherited name as an enum code

## Main results

* `decode_encodePinned` — a legal config survives the URL if what is not pinned is at its
  default
* `legal_decode_iff_plain` — a search decodes to a legal config exactly when it is plain
-/

namespace MempoolObserver

/-! ### Objects -/

/-- A string of the runtime: UTF-16 code units. -/
abbrev JsString := List UInt16

/-- An ASCII literal. -/
def js (literal : String) : JsString := literal.toList.map fun c => c.toNat.toUInt16

inductive JsValue
  | string (value : JsString)
  | number (value : JsNumber)
  | boolean (value : Bool)
  | null
  | undefined
  deriving DecidableEq

/-- The names of the members that plain objects inherit, none of which is falsy. -/
def objectPrototype : List JsString :=
  ["constructor", "__defineGetter__", "__defineSetter__", "hasOwnProperty", "__lookupGetter__",
    "__lookupSetter__", "isPrototypeOf", "propertyIsEnumerable", "toString", "valueOf",
    "__proto__", "toLocaleString"].map js

/-- What a property read finds: an own property, or an inherited member. -/
inductive Member (α : Type)
  | own (value : α)
  | inherited (name : JsString)
  deriving DecidableEq

/-- A plain object, by its own properties. -/
abbrev JsObject (α : Type) := JsString → Option α

def JsObject.find {α : Type} (object : JsObject α) (name : JsString) : Option (Member α) :=
  match object name with
  | some value => some (.own value)
  | none => if name ∈ objectPrototype then some (.inherited name) else none

/-! ### The config -/

inductive VizType
  | circles | treemap | histogram | table
  deriving DecidableEq, Repr

inductive ClusterColumnKey
  | id | txs | vsize | fee | feerate | firstSeen
  deriving DecidableEq, Repr

structure ClustersViz where
  vizType : Member VizType
  sizeMetric : Member ClusterMetric
  colorMetric : Member ClusterMetric
  showCount : ℚ
  bins : ℚ
  sortKey : Member ClusterColumnKey
  sortDir : Member SortDir
  page : ℚ
  query : JsString
  includeSingletons : Bool
  deriving DecidableEq

def clustersVizDefaults : ClustersViz where
  vizType := .own .circles
  sizeMetric := .own .feerate
  colorMetric := .own .feerate
  showCount := 40
  bins := 30
  sortKey := .own .feerate
  sortDir := .own .desc
  page := 1
  query := []
  includeSingletons := true

structure Range where
  min : ℤ
  max : ℤ
  ordered : min ≤ max

def showCountRange : Range := ⟨10, 250, by decide⟩

def binsRange : Range := ⟨5, 50, by decide⟩

def pageRange : Range := ⟨1, 1000000, by decide⟩

def queryMaxLen : ℕ := 100

/-! ### The codes -/

def VizType.code : VizType → JsString
  | circles => js "c"
  | treemap => js "t"
  | histogram => js "h"
  | table => js "b"

def ClusterMetric.code : ClusterMetric → JsString
  | feerate => js "r"
  | txs => js "t"
  | vsize => js "v"
  | fee => js "f"

def ClusterColumnKey.code : ClusterColumnKey → JsString
  | id => js "i"
  | txs => js "t"
  | vsize => js "v"
  | fee => js "f"
  | feerate => js "r"
  | firstSeen => js "s"

def SortDir.code : SortDir → JsString
  | asc => js "a"
  | desc => js "d"

/-- The object from codes to names; of two names with one code the last would stay. -/
def byCode {α : Type} (names : List α) (code : α → JsString) : JsObject α :=
  fun raw => (names.filter (code · = raw)).getLast?

def vizByCode : JsObject VizType := byCode [.circles, .treemap, .histogram, .table] VizType.code

def metricByCode : JsObject ClusterMetric :=
  byCode [.feerate, .txs, .vsize, .fee] ClusterMetric.code

def sortByCode : JsObject ClusterColumnKey :=
  byCode [.id, .txs, .vsize, .fee, .feerate, .firstSeen] ClusterColumnKey.code

def dirByCode : JsObject SortDir := byCode [.asc, .desc] SortDir.code

/-- Reads a coded enum param: what the lookup finds, else the default. -/
def readCode {α : Type} (raw : JsValue) (codes : JsObject α) (fallback : Member α) : Member α :=
  match raw with
  | .string s => (codes.find s).getD fallback
  | _ => fallback

/-- Reads a numeric param, rounded and clamped into range. -/
def readNumber (toNumber : JsString → JsNumber) (raw : JsValue) (range : Range)
    (fallback : ℚ) : ℚ :=
  let n : JsNumber := match raw with
    | .number n => n
    | .string s => if s = [] then .nan else toNumber s
    | .boolean b => .finite (if b then 1 else 0)
    | .null => .nan
    | .undefined => .nan
  match n with
  | .finite n => ((min range.max (max range.min (mathRound n)) : ℤ) : ℚ)
  | _ => fallback

/-- Reads a boolean param encoded as 1/0 or their string forms. -/
def readBoolean (raw : JsValue) (fallback : Bool) : Bool :=
  if raw = .number (.finite 1) ∨ raw = .string (js "1") then true
  else if raw = .number (.finite 0) ∨ raw = .string (js "0") then false
  else fallback

/-- Reads a string param, healing other values to the empty string. -/
def readQuery (raw : JsValue) (maxLen : ℕ) : JsString :=
  match raw with
  | .string s => s.take maxLen
  | _ => []

/-! ### The wire -/

inductive WireKey
  | v | s | c | n | b | k | d | p | q | g
  deriving DecidableEq, Repr

def wireKeys : List WireKey := [.v, .s, .c, .n, .b, .k, .d, .p, .q, .g]

def WireKey.letter : WireKey → JsString
  | v => js "v"
  | s => js "s"
  | c => js "c"
  | n => js "n"
  | b => js "b"
  | k => js "k"
  | d => js "d"
  | p => js "p"
  | q => js "q"
  | g => js "g"

/-- What the router reads from a URL: any keys, any values. -/
abbrev Wire := JsObject JsValue

/-- `wire.key`. -/
def Wire.get (wire : Wire) (key : WireKey) : JsValue :=
  match wire.find key.letter with
  | some (.own value) => value
  | _ => .undefined

/-- `key in wire`. -/
def Wire.has (wire : Wire) (key : WireKey) : Bool := (wire.find key.letter).isSome

/-- `ClustersSearch`: a search with no other keys. -/
abbrev ClustersSearch := WireKey → Option JsValue

/-- A search as the object it is. -/
def ClustersSearch.wire (search : ClustersSearch) : Wire :=
  fun name => (wireKeys.find? (·.letter = name)).bind search

variable (toNumber : JsString → JsNumber)

/-- URL search to config, with every missing or invalid value healed. -/
def decodeClustersSearch (wire : Wire) : ClustersViz where
  vizType := readCode (wire.get .v) vizByCode clustersVizDefaults.vizType
  sizeMetric := readCode (wire.get .s) metricByCode clustersVizDefaults.sizeMetric
  colorMetric := readCode (wire.get .c) metricByCode clustersVizDefaults.colorMetric
  showCount := readNumber toNumber (wire.get .n) showCountRange clustersVizDefaults.showCount
  bins := readNumber toNumber (wire.get .b) binsRange clustersVizDefaults.bins
  sortKey := readCode (wire.get .k) sortByCode clustersVizDefaults.sortKey
  sortDir := readCode (wire.get .d) dirByCode clustersVizDefaults.sortDir
  page := readNumber toNumber (wire.get .p) pageRange clustersVizDefaults.page
  query := readQuery (wire.get .q) queryMaxLen
  includeSingletons := readBoolean (wire.get .g) clustersVizDefaults.includeSingletons

/-- The code of a name; anything else has none. -/
def writeCode {α : Type} (code : α → JsString) : Member α → JsValue
  | .own name => .string (code name)
  | .inherited _ => .undefined

/-- Config to URL search, every param pinned, defaults included. -/
def encodeClustersSearch (viz : ClustersViz) : WireKey → JsValue
  | .v => writeCode VizType.code viz.vizType
  | .s => writeCode ClusterMetric.code viz.sizeMetric
  | .c => writeCode ClusterMetric.code viz.colorMetric
  | .n => .number (.finite viz.showCount)
  | .b => .number (.finite viz.bins)
  | .k => writeCode ClusterColumnKey.code viz.sortKey
  | .d => writeCode SortDir.code viz.sortDir
  | .p => .number (.finite viz.page)
  | .q => .string viz.query
  | .g => .number (.finite (if viz.includeSingletons then 1 else 0))

/-- Encodes, then keeps only the params the URL is meant to carry. -/
def encodePinned (viz : ClustersViz) (pinned : WireKey → Bool) : ClustersSearch :=
  fun key => if pinned key then some (encodeClustersSearch viz key) else none

/-- Heals the params the URL carries, and only those. -/
def validateClustersSearch (raw : Wire) : ClustersSearch :=
  encodePinned (decodeClustersSearch toNumber raw) raw.has

/-- `Partial<ClustersViz>`. -/
structure ClustersPatch where
  vizType : Option (Member VizType)
  sizeMetric : Option (Member ClusterMetric)
  colorMetric : Option (Member ClusterMetric)
  showCount : Option ℚ
  bins : Option ℚ
  sortKey : Option (Member ClusterColumnKey)
  sortDir : Option (Member SortDir)
  page : Option ℚ
  query : Option JsString
  includeSingletons : Option Bool

/-- Whether the patch has the field that travels under the key. -/
def ClustersPatch.touches (patch : ClustersPatch) : WireKey → Bool
  | .v => patch.vizType.isSome
  | .s => patch.sizeMetric.isSome
  | .c => patch.colorMetric.isSome
  | .n => patch.showCount.isSome
  | .b => patch.bins.isSome
  | .k => patch.sortKey.isSome
  | .d => patch.sortDir.isSome
  | .p => patch.page.isSome
  | .q => patch.query.isSome
  | .g => patch.includeSingletons.isSome

/-- `{ ...viz, ...patch }`. -/
def ClustersViz.override (viz : ClustersViz) (patch : ClustersPatch) : ClustersViz where
  vizType := patch.vizType.getD viz.vizType
  sizeMetric := patch.sizeMetric.getD viz.sizeMetric
  colorMetric := patch.colorMetric.getD viz.colorMetric
  showCount := patch.showCount.getD viz.showCount
  bins := patch.bins.getD viz.bins
  sortKey := patch.sortKey.getD viz.sortKey
  sortDir := patch.sortDir.getD viz.sortDir
  page := patch.page.getD viz.page
  query := patch.query.getD viz.query
  includeSingletons := patch.includeSingletons.getD viz.includeSingletons

/-- Sorting or filtering returns to the first page, unless the caller sets the page. -/
def ClustersPatch.resetsPage (patch : ClustersPatch) : Bool :=
  (patch.sortKey.isSome || patch.sortDir.isSome || patch.query.isSome) && !patch.page.isSome

/-- Applies the patch, pinning the params in the URL and the ones just changed. -/
def patchClustersSearch (prev : Wire) (patch : ClustersPatch) : ClustersSearch :=
  let effectivePatch := if patch.resetsPage then { patch with page := some 1 } else patch
  encodePinned ((decodeClustersSearch toNumber prev).override effectivePatch)
    fun key => prev.has key || effectivePatch.touches key

/-! ### Legal configs -/

/-- A whole number inside the range. -/
def Range.Contains (range : Range) (x : ℚ) : Prop := ∃ n : ℤ, range.min ≤ n ∧ n ≤ range.max ∧ x = n

/-- A declared name, not an inherited member. -/
def Member.IsOwn {α : Type} (member : Member α) : Prop := ∃ name, member = .own name

/-- Every field is among its declared names or inside its range. -/
structure ClustersViz.Legal (viz : ClustersViz) : Prop where
  vizType : viz.vizType.IsOwn
  sizeMetric : viz.sizeMetric.IsOwn
  colorMetric : viz.colorMetric.IsOwn
  showCount : showCountRange.Contains viz.showCount
  bins : binsRange.Contains viz.bins
  sortKey : viz.sortKey.IsOwn
  sortDir : viz.sortDir.IsOwn
  page : pageRange.Contains viz.page
  query : viz.query.length ≤ queryMaxLen

/-- The same of the fields a patch has. -/
structure ClustersPatch.Legal (patch : ClustersPatch) : Prop where
  vizType : ∀ value, patch.vizType = some value → value.IsOwn
  sizeMetric : ∀ value, patch.sizeMetric = some value → value.IsOwn
  colorMetric : ∀ value, patch.colorMetric = some value → value.IsOwn
  showCount : ∀ value, patch.showCount = some value → showCountRange.Contains value
  bins : ∀ value, patch.bins = some value → binsRange.Contains value
  sortKey : ∀ value, patch.sortKey = some value → value.IsOwn
  sortDir : ∀ value, patch.sortDir = some value → value.IsOwn
  page : ∀ value, patch.page = some value → pageRange.Contains value
  query : ∀ value, patch.query = some value → value.length ≤ queryMaxLen

private theorem getD_of_forall {α : Type} {P : α → Prop} {patched : Option α} {value : α}
    (legal : ∀ new, patched = some new → P new) (old : P value) : P (patched.getD value) := by
  cases patched with
  | none => exact old
  | some new => exact legal new rfl

theorem ClustersViz.Legal.override {viz : ClustersViz} {patch : ClustersPatch} (legal : viz.Legal)
    (patched : patch.Legal) : (viz.override patch).Legal where
  vizType := getD_of_forall patched.vizType legal.vizType
  sizeMetric := getD_of_forall patched.sizeMetric legal.sizeMetric
  colorMetric := getD_of_forall patched.colorMetric legal.colorMetric
  showCount := getD_of_forall patched.showCount legal.showCount
  bins := getD_of_forall patched.bins legal.bins
  sortKey := getD_of_forall patched.sortKey legal.sortKey
  sortDir := getD_of_forall patched.sortDir legal.sortDir
  page := getD_of_forall patched.page legal.page
  query := getD_of_forall (P := fun query : JsString => query.length ≤ queryMaxLen)
    patched.query legal.query

/-! ### Reading one param -/

section Reads

variable {toNumber : JsString → JsNumber}

/-- No code is the name of an inherited member. -/
theorem codes_not_inherited : ∀ name ∈ objectPrototype,
    vizByCode name = none ∧ metricByCode name = none ∧ sortByCode name = none ∧
      dirByCode name = none := by
  decide

/-- A read finds a declared name unless the code is the name of an inherited member. -/
theorem readCode_isOwn_iff {α : Type} (raw : JsValue) {codes : JsObject α} (fallback : Member α)
    (own : ∀ name ∈ objectPrototype, codes name = none) (legal : fallback.IsOwn) :
    (readCode raw codes fallback).IsOwn ↔ ∀ name ∈ objectPrototype, raw ≠ .string name := by
  constructor
  · rintro ⟨found, isOwn⟩ name inherited rfl
    -- An inherited name is found on the prototype, and what is found there is no own entry.
    rw [readCode, JsObject.find, own name inherited] at isOwn
    simp [inherited] at isOwn
  · intro plain
    cases raw with
    | string s =>
      -- A plain string either names an own entry or falls through to the fallback.
      have known : s ∉ objectPrototype := fun inherited => plain s inherited rfl
      rw [readCode, JsObject.find]
      cases codes s with
      | some value => exact ⟨value, rfl⟩
      | none =>
        rw [if_neg known]
        exact legal
    | _ => exact legal

theorem contains_readNumber {raw : JsValue} {range : Range} {fallback : ℚ}
    (legal : range.Contains fallback) :
    range.Contains (readNumber toNumber raw range fallback) := by
  unfold readNumber
  dsimp only
  split
  case h_1 n _ =>
    exact ⟨_, le_min range.ordered (le_max_left ..), min_le_left .., rfl⟩
  case h_2 => exact legal

theorem readNumber_of_contains {range : Range} {x fallback : ℚ} (legal : range.Contains x) :
    readNumber toNumber (.number (.finite x)) range fallback = x := by
  obtain ⟨n, least, greatest, rfl⟩ := legal
  simp only [readNumber, mathRound_intCast]
  rw [max_eq_right least, min_eq_right greatest]

end Reads

/-! ### Reading a search -/

section Search

variable {toNumber : JsString → JsNumber} {wire other : Wire} {viz : ClustersViz} {key : WireKey}

theorem letter_not_inherited (key : WireKey) : key.letter ∉ objectPrototype := by
  cases key <;> decide

theorem Wire.get_eq (wire : Wire) (key : WireKey) :
    wire.get key = (wire key.letter).getD .undefined := by
  unfold Wire.get JsObject.find
  cases wire key.letter with
  | some value => rfl
  | none => rw [if_neg (letter_not_inherited key)]; rfl

theorem Wire.has_eq (wire : Wire) (key : WireKey) : wire.has key = (wire key.letter).isSome := by
  unfold Wire.has JsObject.find
  cases wire key.letter with
  | some value => rfl
  | none => rw [if_neg (letter_not_inherited key)]; rfl

theorem ClustersSearch.wire_letter (search : ClustersSearch) (key : WireKey) :
    search.wire key.letter = search key := by
  have found : wireKeys.find? (fun other => decide (other.letter = key.letter)) = some key := by
    cases key <;> rfl
  rw [ClustersSearch.wire, found, Option.bind_some]

@[simp] theorem ClustersSearch.get_wire (search : ClustersSearch) (key : WireKey) :
    search.wire.get key = (search key).getD .undefined := by
  rw [Wire.get_eq, search.wire_letter]

@[simp] theorem ClustersSearch.has_wire (search : ClustersSearch) (key : WireKey) :
    search.wire.has key = (search key).isSome := by
  rw [Wire.has_eq, search.wire_letter]

/-- A param that is not there reads as undefined. -/
theorem Wire.get_of_not_has (absent : wire.has key = false) : wire.get key = .undefined := by
  rw [Wire.has_eq, Option.isSome_eq_false_iff, Option.isNone_iff_eq_none] at absent
  rw [Wire.get_eq, absent, Option.getD_none]

/-- The two configs agree on the field of a key. -/
def ClustersViz.Agree (viz other : ClustersViz) : WireKey → Prop
  | .v => viz.vizType = other.vizType
  | .s => viz.sizeMetric = other.sizeMetric
  | .c => viz.colorMetric = other.colorMetric
  | .n => viz.showCount = other.showCount
  | .b => viz.bins = other.bins
  | .k => viz.sortKey = other.sortKey
  | .d => viz.sortDir = other.sortDir
  | .p => viz.page = other.page
  | .q => viz.query = other.query
  | .g => viz.includeSingletons = other.includeSingletons

theorem ClustersViz.eq_of_agree {viz other : ClustersViz} (agree : ∀ key, viz.Agree other key) :
    viz = other := by
  obtain ⟨⟩ := viz
  obtain ⟨⟩ := other
  -- The ten fields one by one: each wire key stands for one field.
  have v := agree .v
  have s := agree .s
  have c := agree .c
  have n := agree .n
  have b := agree .b
  have k := agree .k
  have d := agree .d
  have p := agree .p
  have q := agree .q
  have g := agree .g
  simp only [ClustersViz.Agree] at v s c n b k d p q g
  simp only [v, s, c, n, b, k, d, p, q, g]

theorem ClustersViz.Agree.of_common {viz other common : ClustersViz} (first : viz.Agree common key)
    (second : other.Agree common key) : viz.Agree other key := by
  cases key <;> exact Eq.trans first (Eq.symm second)

/-- A field depends on its own param only. -/
theorem agree_decode (same : wire.get key = other.get key) :
    (decodeClustersSearch toNumber wire).Agree (decodeClustersSearch toNumber other) key := by
  cases key <;> simp only [ClustersViz.Agree, decodeClustersSearch, same]

/-- A param that is not there leaves its field at the default. -/
theorem agree_defaults (absent : wire.get key = .undefined) :
    (decodeClustersSearch toNumber wire).Agree clustersVizDefaults key := by
  cases key <;> simp only [ClustersViz.Agree, decodeClustersSearch, absent] <;> rfl

/-- A legal config survives the URL. -/
theorem decode_encode (legal : viz.Legal) :
    decodeClustersSearch toNumber
      (ClustersSearch.wire fun key => some (encodeClustersSearch viz key)) = viz := by
  obtain ⟨vizType, vizTypeOwn⟩ := legal.vizType
  obtain ⟨sizeMetric, sizeMetricOwn⟩ := legal.sizeMetric
  obtain ⟨colorMetric, colorMetricOwn⟩ := legal.colorMetric
  obtain ⟨sortKey, sortKeyOwn⟩ := legal.sortKey
  obtain ⟨sortDir, sortDirOwn⟩ := legal.sortDir
  apply ClustersViz.eq_of_agree
  intro key
  -- Each field reads its own wire value back; the coded ones still need a case per code.
  cases key <;>
    simp only [ClustersViz.Agree, decodeClustersSearch, ClustersSearch.get_wire, Option.getD_some,
      encodeClustersSearch, vizTypeOwn, sizeMetricOwn, colorMetricOwn, sortKeyOwn, sortDirOwn,
      readNumber_of_contains legal.showCount, readNumber_of_contains legal.bins,
      readNumber_of_contains legal.page, readQuery, List.take_of_length_le legal.query]
  case v => cases vizType <;> rfl
  case s => cases sizeMetric <;> rfl
  case c => cases colorMetric <;> rfl
  case k => cases sortKey <;> rfl
  case d => cases sortDir <;> rfl
  case g => cases viz.includeSingletons <;> decide

/-- So it does when the params that are not pinned are at their defaults. -/
theorem decode_encodePinned {pinned : WireKey → Bool} (legal : viz.Legal)
    (defaults : ∀ key, pinned key = false → viz.Agree clustersVizDefaults key) :
    decodeClustersSearch toNumber (encodePinned viz pinned).wire = viz := by
  apply ClustersViz.eq_of_agree
  intro key
  -- A carried key reads as in the full record, an absent one falls back to its default.
  cases carried : pinned key with
  | true =>
    have same : (encodePinned viz pinned).wire.get key =
        (ClustersSearch.wire fun key => some (encodeClustersSearch viz key)).get key := by
      simp [encodePinned, carried]
    have agree := @agree_decode toNumber _ _ _ same
    rwa [decode_encode legal] at agree
  | false =>
    have absent : (encodePinned viz pinned).wire.get key = .undefined := by
      simp [encodePinned, carried]
    exact (agree_defaults absent).of_common (defaults key carried)

end Search

/-! ### Plain searches -/

section Plain

variable {toNumber : JsString → JsNumber} {wire : Wire} {patch : ClustersPatch}

/-- No enum param is the name of a member that every object inherits. -/
def Plain (wire : Wire) : Prop :=
  ∀ key ∈ [WireKey.v, .s, .c, .k, .d], ∀ name ∈ objectPrototype, wire.get key ≠ .string name

/-- A search decodes to a legal config exactly when it is plain. -/
theorem legal_decode_iff_plain : (decodeClustersSearch toNumber wire).Legal ↔ Plain wire := by
  -- One lookup per coded field, each legal exactly when its raw value names nothing inherited.
  have viz (name : JsString) (inherited : name ∈ objectPrototype) :=
    codes_not_inherited name inherited
  have v := readCode_isOwn_iff (wire.get .v) clustersVizDefaults.vizType
    (fun name inherited => (viz name inherited).1) ⟨_, rfl⟩
  have s := readCode_isOwn_iff (wire.get .s) clustersVizDefaults.sizeMetric
    (fun name inherited => (viz name inherited).2.1) ⟨_, rfl⟩
  have c := readCode_isOwn_iff (wire.get .c) clustersVizDefaults.colorMetric
    (fun name inherited => (viz name inherited).2.1) ⟨_, rfl⟩
  have k := readCode_isOwn_iff (wire.get .k) clustersVizDefaults.sortKey
    (fun name inherited => (viz name inherited).2.2.1) ⟨_, rfl⟩
  have d := readCode_isOwn_iff (wire.get .d) clustersVizDefaults.sortDir
    (fun name inherited => (viz name inherited).2.2.2) ⟨_, rfl⟩
  unfold Plain
  simp only [List.forall_mem_cons, List.not_mem_nil, false_imp_iff, implies_true, and_true]
  rw [← v, ← s, ← c, ← k, ← d]
  constructor
  · intro legal
    exact ⟨legal.vizType, legal.sizeMetric, legal.colorMetric, legal.sortKey, legal.sortDir⟩
  · rintro ⟨vizType, sizeMetric, colorMetric, sortKey, sortDir⟩
    -- The numbers are clamped and the query cut, whatever the wire holds.
    exact {
      vizType, sizeMetric, colorMetric, sortKey, sortDir
      showCount := contains_readNumber ⟨40, by decide, by decide, rfl⟩
      bins := contains_readNumber ⟨30, by decide, by decide, rfl⟩
      page := contains_readNumber ⟨1, by decide, by decide, rfl⟩
      query := by
        show (readQuery (wire.get .q) queryMaxLen).length ≤ queryMaxLen
        unfold readQuery
        split
        · exact List.length_take_le ..
        · exact Nat.zero_le _ }

theorem isSome_encodePinned {viz : ClustersViz} {pinned : WireKey → Bool} {key : WireKey} :
    (encodePinned viz pinned key).isSome = pinned key := by
  unfold encodePinned
  cases pinned key <;> rfl

theorem decode_validate (plain : Plain wire) :
    decodeClustersSearch toNumber (validateClustersSearch toNumber wire).wire =
      decodeClustersSearch toNumber wire :=
  decode_encodePinned (legal_decode_iff_plain.mpr plain) fun _ absent =>
    agree_defaults (Wire.get_of_not_has absent)

theorem validate_validate (plain : Plain wire) :
    validateClustersSearch toNumber (validateClustersSearch toNumber wire).wire =
      validateClustersSearch toNumber wire := by
  have keys : (validateClustersSearch toNumber wire).wire.has = wire.has := by
    funext key
    rw [ClustersSearch.has_wire, validateClustersSearch, isSome_encodePinned]
  rw [validateClustersSearch, decode_validate plain, keys]
  rfl

/-- A patch leaves the fields it does not touch. -/
theorem agree_override {viz : ClustersViz} {key : WireKey} (untouched : patch.touches key = false) :
    (viz.override patch).Agree viz key := by
  cases key <;>
    simp only [ClustersPatch.touches, Option.isSome_eq_false_iff, Option.isNone_iff_eq_none]
      at untouched <;>
    simp only [ClustersViz.Agree, ClustersViz.override, untouched, Option.getD_none]

/-- The patch as it is applied, page reset included. -/
def ClustersPatch.effective (patch : ClustersPatch) : ClustersPatch :=
  if patch.resetsPage then { patch with page := some 1 } else patch

theorem ClustersPatch.Legal.effective (legal : patch.Legal) : patch.effective.Legal := by
  unfold ClustersPatch.effective
  split_ifs
  · refine { legal with page := ?_ }
    intro value given
    rw [← Option.some.inj given]
    exact ⟨1, by decide, by decide, rfl⟩
  · exact legal

theorem decode_patch (plain : Plain wire) (legal : patch.Legal) :
    decodeClustersSearch toNumber (patchClustersSearch toNumber wire patch).wire =
      (decodeClustersSearch toNumber wire).override patch.effective := by
  apply decode_encodePinned
  · exact (legal_decode_iff_plain.mpr plain).override legal.effective
  · intro key neither
    rw [Bool.or_eq_false_iff] at neither
    have before : (decodeClustersSearch toNumber wire).Agree clustersVizDefaults key :=
      agree_defaults (Wire.get_of_not_has neither.1)
    have kept : ((decodeClustersSearch toNumber wire).override patch.effective).Agree
      (decodeClustersSearch toNumber wire) key := agree_override neither.2
    cases key <;> exact Eq.trans kept before

theorem touches_effective {key : WireKey} : patch.effective.touches key = true ↔
    patch.touches key = true ∨ key = .p ∧ patch.resetsPage = true := by
  unfold ClustersPatch.effective
  split_ifs with resets
  · cases key <;> simp [ClustersPatch.touches, resets]
  · simp [resets]

/-- What the page relies on for one search: it decodes to a legal config, validating it heals
it in place, and patching it overrides what it decodes to. -/
structure Faithful (toNumber : JsString → JsNumber) (wire : Wire) : Prop where
  legal : (decodeClustersSearch toNumber wire).Legal
  idempotent : validateClustersSearch toNumber (validateClustersSearch toNumber wire).wire =
    validateClustersSearch toNumber wire
  keys : ∀ key, (validateClustersSearch toNumber wire key).isSome = wire.has key
  healed : decodeClustersSearch toNumber (validateClustersSearch toNumber wire).wire =
    decodeClustersSearch toNumber wire
  patched : ∀ patch : ClustersPatch, patch.Legal →
    decodeClustersSearch toNumber (patchClustersSearch toNumber wire patch).wire =
      { (decodeClustersSearch toNumber wire).override patch with
        page := if (patch.sortKey.isSome ∨ patch.sortDir.isSome ∨ patch.query.isSome) ∧
            patch.page.isNone then 1
          else patch.page.getD (decodeClustersSearch toNumber wire).page }
  patchedKeys : ∀ (patch : ClustersPatch) (key : WireKey), patch.Legal →
    ((patchClustersSearch toNumber wire patch key).isSome ↔
      wire.has key ∨ patch.touches key ∨ key = .p ∧ patch.resetsPage)

theorem override_effective (viz : ClustersViz) (patch : ClustersPatch) :
    viz.override patch.effective =
      { viz.override patch with
        page := if (patch.sortKey.isSome ∨ patch.sortDir.isSome ∨ patch.query.isSome) ∧
            patch.page.isNone then 1
          else patch.page.getD viz.page } := by
  have resets : patch.resetsPage = true ↔
      (patch.sortKey.isSome ∨ patch.sortDir.isSome ∨ patch.query.isSome) ∧ patch.page.isNone := by
    simp [ClustersPatch.resetsPage, or_assoc]
  unfold ClustersPatch.effective
  by_cases reset : patch.resetsPage = true
  · rw [if_pos reset, if_pos (resets.mp reset)]
    rfl
  · rw [if_neg reset, if_neg (fun holds => reset (resets.mpr holds))]
    rfl

/-- Every legal config survives the URL, and the page can rely on a search exactly when no enum
param in it is the name of an inherited member. -/
theorem search_faithful_iff_plain (toNumber : JsString → JsNumber) :
    (∀ viz : ClustersViz, viz.Legal → decodeClustersSearch toNumber
      (ClustersSearch.wire fun key => some (encodeClustersSearch viz key)) = viz) ∧
      ∀ wire : Wire, Faithful toNumber wire ↔ Plain wire := by
  refine ⟨fun viz legal => decode_encode legal, ?_⟩
  intro wire
  constructor
  · intro faithful
    exact legal_decode_iff_plain.mp faithful.legal
  · intro plain
    refine ⟨legal_decode_iff_plain.mpr plain, validate_validate plain, ?_, decode_validate plain,
      ?_, ?_⟩
    · intro key
      exact isSome_encodePinned
    · intro patch legal
      rw [decode_patch plain legal, override_effective]
    · intro patch key _
      -- The pinned keys are those of the old record together with the ones the patch touches.
      have keys : (patchClustersSearch toNumber wire patch key).isSome =
          (wire.has key || patch.effective.touches key) :=
        @isSome_encodePinned ((decodeClustersSearch toNumber wire).override patch.effective)
          (fun key => wire.has key || patch.effective.touches key) key
      rw [keys, Bool.or_eq_true, touches_effective]

/-- The search `?v=constructor`. -/
def constructorSearch : Wire := fun name =>
  if name = js "v" then some (.string (js "constructor")) else none

/-- Its viz type is the inherited constructor of the code table. -/
theorem constructor_not_faithful :
    ¬ ∃ toNumber : JsString → JsNumber, Faithful toNumber constructorSearch := by
  rintro ⟨toNumber, faithful⟩
  obtain ⟨name, own⟩ := faithful.legal.vizType
  have inherited : readCode (constructorSearch.get .v) vizByCode clustersVizDefaults.vizType =
    .inherited (js "constructor") := by decide
  rw [decodeClustersSearch, inherited] at own
  cases own

end Plain

end MempoolObserver
