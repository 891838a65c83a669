import MempoolObserver.Library.Collections
import MempoolObserver.Library.Text

/-!
# Loading a dotenv file

A line of the file defines a variable, unless it is set already. Its value is
trimmed, cut at a comment, rid of quotes, and what it says of other variables is put
in. `load_dotenv_from` does so in the words of the source; `DotenvLaw` says what the
environment should be afterwards.

The quotes go by `trim_matches`, which takes every quote at either end and not one
pair, so that the law fails for values that have more quotes at their ends.

No variable has a `=` in its name, and `getenv` does not look for one: it finds the entry
that begins with the name and a `=`, be it another variable's. The main result leaves
such references out.

## Main definitions

* `loadDotenvFrom`
* `DotenvValue` — the value a definition should have
* `DotenvLaw` — what the environment should be

## Main results

* `dotenvLaw_iff` — the law holds exactly if the quotes of every value that is used
  are plain
-/

namespace MempoolObserver

open Text

/-- The value of an environment variable. -/
inductive EnvValue where
  | text (value : List Char)
  /-- Bytes that are no text. -/
  | notUnicode
  deriving DecidableEq

abbrev Env := List Char → Option EnvValue

/-- The value of a variable, or nothing. -/
def Env.value (env : Env) (name : List Char) : List Char :=
  match env name with
  | some (.text value) => value
  | _ => []

/-- What `std::env::var` gives, or nothing: the rest of the entry that begins with the name and a
`=`, where an entry is a name, a `=` and the value. -/
def Env.var (env : Env) (name : List Char) : List Char :=
  match splitFirst ['='] name with
  | none => env.value name
  | some (key, front) =>
    let value := env.value key
    if front ++ ['='] <+: value then value.drop (front.length + 1) else []

/-- `std::env::set_var`, which panics on a NUL. -/
def Env.setVar (env : Env) (key value : List Char) : Option Env :=
  if Char.ofNat 0 ∈ key ∨ Char.ofNat 0 ∈ value then none
  else some (Function.update env key (some (.text value)))

/-- `char::is_whitespace`. -/
def isWhitespace (c : Char) : Bool :=
  9 ≤ c.toNat && c.toNat ≤ 13 || 0x2000 ≤ c.toNat && c.toNat ≤ 0x200a ||
    c.toNat ∈ [0x20, 0x85, 0xa0, 0x1680, 0x2028, 0x2029, 0x202f, 0x205f, 0x3000]

def trimEnd (s : List Char) : List Char := s.rdropWhile isWhitespace

def trim (s : List Char) : List Char := trimEnd (s.dropWhile isWhitespace)

/-- `str::lines`. -/
def lines (contents : List Char) : List (List Char) :=
  let parts := contents.splitOn '\n'
  let ended :=
    parts.dropLast.map fun line => if line.getLast? = some '\r' then line.dropLast else line
  match parts.getLast? with
  | none | some [] => ended
  | some rest => ended ++ [rest]

/-- Strips a trailing comment from an unquoted value. -/
def stripInlineComment (value : List Char) : List Char :=
  if value.head? = some '"' ∨ value.head? = some '\'' then value
  else
    match splitFirst [' ', '#'] value with
    | some (before, _) => trimEnd before
    | none => value

/-- The rest of the loop of `expand`, which a bound ends that is never reached. -/
def expandUpTo (env : Env) : ℕ → List Char → List Char
  | 0, rest => rest
  | bound + 1, rest =>
    match splitFirst ['$', '{'] rest with
    | none => rest
    | some (before, after) =>
      match splitFirst ['}'] after with
      | some (name, rest) => before ++ env.var name ++ expandUpTo env bound rest
      | none => before ++ ['$', '{'] ++ after

/-- Substitutes every `${NAME}` in the value with that variable's current value. -/
def expand (env : Env) (value : List Char) : List Char := expandUpTo env value.length value

/-- What becomes of the quotes of a value. -/
def trimQuotes (value : List Char) : List Char := trimMatches '\'' (trimMatches '"' value)

/-- What one line does; `none` when it panics. -/
def loadLine (env : Env) (line : List Char) : Option Env :=
  let line := trim line
  if line = [] ∨ line.head? = some '#' then some env
  else
    match splitFirst ['='] line with
    | none => some env
    | some (key, value) =>
      let key := trim key
      let value := stripInlineComment (trim value)
      let value := trimQuotes value
      if key = [] ∨ (env key).isSome then some env
      else env.setVar key (expand env value)

/-- The environment after a file with the contents, `none` of which could not be read. -/
def loadDotenvFrom (contents : Option (List Char)) (env : Env) : Option Env :=
  match contents with
  | none => some env
  | some contents => (lines contents).foldlM loadLine env

/-! ### What the value of a definition should be -/

def isQuote (c : Char) : Bool := c = '"' || c = '\''

/-- The value without its comment, if it is not quoted. -/
inductive Uncommented : List Char → List Char → Prop where
  | quoted {value : List Char} (opens : value.head?.any isQuote = true) : Uncommented value value
  | plain {value : List Char} (bare : value.head?.any isQuote = false)
      (none : ¬ [' ', '#'] <:+: value) : Uncommented value value
  | cut {before after : List Char}
      (bare : (before ++ [' ', '#'] ++ after).head?.any isQuote = false)
      (first : ¬ [' ', '#'] <:+: before) :
      Uncommented (before ++ [' ', '#'] ++ after) (trimEnd before)

/-- The value without one surrounding pair of identical quotes. -/
inductive Unquoted : List Char → List Char → Prop where
  | pair {quote : Char} {inner : List Char} (isOne : isQuote quote = true) :
      Unquoted (quote :: inner ++ [quote]) inner
  | bare {value : List Char}
      (none : ∀ quote inner, isQuote quote = true → value ≠ quote :: inner ++ [quote]) :
      Unquoted value value

/-- The value with every `${NAME}` looked up and replaced, left to right and once. -/
inductive Expands (lookup : List Char → List Char) : List Char → List Char → Prop where
  | done {value : List Char} (none : ¬ ['$', '{'] <:+: value) : Expands lookup value value
  | unterminated {before after : List Char} (first : ¬ ['$', '{'] <:+: before)
      (none : '}' ∉ after) :
      Expands lookup (before ++ ['$', '{'] ++ after) (before ++ ['$', '{'] ++ after)
  | replaced {before name rest out : List Char} (first : ¬ ['$', '{'] <:+: before)
      (ends : '}' ∉ name) (expands : Expands lookup rest out) :
      Expands lookup (before ++ ['$', '{'] ++ (name ++ '}' :: rest))
        (before ++ lookup name ++ out)

/-- The value that the raw text of a definition stands for. -/
def DotenvValue (env : Env) (raw value : List Char) : Prop :=
  ∃ uncommented unquoted, Uncommented (trim raw) uncommented ∧ Unquoted uncommented unquoted ∧
    Expands env.value unquoted value

/-- The key and the raw text that a line defines. -/
def definition (line : List Char) : Option (List Char × List Char) :=
  let line := trim line
  if line = [] ∨ line.head? = some '#' then none
  else
    match splitFirst ['='] line with
    | none => none
    | some (key, raw) => if trim key = [] then none else some (trim key, raw)

/-- The definitions of a file, in order. -/
def definitions (contents : Option (List Char)) : List (List Char × List Char) :=
  match contents with
  | none => []
  | some contents => (lines contents).filterMap definition

/-- The environment as it was once the definitions `before` had been read. -/
def moment (env final : Env) (before : List (List Char × List Char)) : Env :=
  fun name => if (env name).isSome ∨ name ∈ before.map Prod.fst then final name else none

/-- The text refers to no name with a `=` in it. -/
def NamesEntries (text : List Char) : Prop :=
  ∀ name, ['$', '{'] ++ name ++ ['}'] <:+: text → '}' ∉ name → '=' ∉ name

/-- What the environment should be after a file is loaded. -/
structure DotenvLaw (env final : Env) (defs : List (List Char × List Char)) : Prop where
  kept : ∀ name, (env name).isSome = true → final name = env name
  undefined : ∀ name, env name = none → name ∉ defs.map Prod.fst → final name = none
  defined : ∀ before name raw after, defs = before ++ (name, raw) :: after → env name = none →
    name ∉ before.map Prod.fst → ∃ value, DotenvValue (moment env final before) raw value ∧
      final name = some (.text value)

/-! ### Comments -/

theorem trim_head_quote {value : List Char} :
    (value.head? = some '"' ∨ value.head? = some '\'') ↔ value.head?.any isQuote = true := by
  cases value <;> simp [isQuote]

theorem uncommented_stripInlineComment (value : List Char) :
    Uncommented value (stripInlineComment value) := by
  unfold stripInlineComment
  split_ifs with opens
  · exact .quoted (trim_head_quote.mp opens)
  · have bare : value.head?.any isQuote = false := by
      rwa [trim_head_quote, Bool.not_eq_true] at opens
    split
    · next before after cuts =>
      obtain ⟨split, first⟩ := splitFirst_eq_some (by decide) cuts
      subst split
      exact .cut bare first
    · next uncut => exact .plain bare (splitFirst_eq_none uncut)

theorem Uncommented.unique {value first second : List Char} (one : Uncommented value first)
    (other : Uncommented value second) : first = second := by
  -- The three readings of a value exclude one another, and the cut is at the first comment.
  cases one with
  | quoted opens =>
    cases other with
    | quoted => rfl
    | plain => rfl
    | cut bare =>
      rw [opens] at bare
      cases bare
  | plain bare none =>
    cases other with
    | quoted => rfl
    | plain => rfl
    | cut => exact absurd (List.infix_append _ _ _) none
  | cut bare absent =>
    generalize whole : _ ++ [' ', '#'] ++ _ = value at other bare
    cases other with
    | quoted opens =>
      rw [opens] at bare
      cases bare
    | plain _ none =>
      rw [← whole] at none
      exact absurd (List.infix_append _ _ _) none
    | cut _ also =>
      obtain ⟨rfl, -⟩ := cut_unique (by decide) absent also whole
      rfl

/-! ### Expansion -/

theorem expands_expandUpTo (env : Env) {bound : ℕ} {value : List Char}
    (enough : value.length ≤ bound) : Expands env.var value (expandUpTo env bound value) := by
  -- Induction on the bound; every reference read shortens what is left.
  induction bound generalizing value with
  | zero =>
    obtain rfl : value = [] := List.length_eq_zero_iff.mp (Nat.le_zero.mp enough)
    exact .done (by decide)
  | succ bound ih =>
    rw [expandUpTo]
    split
    · next uncut => exact .done (splitFirst_eq_none uncut)
    · next before after cuts =>
      obtain ⟨split, first⟩ := splitFirst_eq_some (by decide) cuts
      subst split
      split
      · next name rest ends =>
        obtain ⟨split, closes⟩ := splitFirst_eq_some (by decide) ends
        subst split
        have shorter : rest.length ≤ bound := by
          simp only [List.length_append, List.length_cons, List.length_nil] at enough
          omega
        have absent : '}' ∉ name := by
          rwa [List.singleton_infix_iff] at closes
        -- The name up to the brace is replaced, and the rest is expanded in turn.
        rw [List.append_assoc name]
        exact .replaced first absent (ih shorter)
      · next unclosed =>
        have absent : '}' ∉ after := by
          have := splitFirst_eq_none unclosed
          rwa [List.singleton_infix_iff] at this
        exact .unterminated first absent

theorem expands_expand (env : Env) (value : List Char) : Expands env.var value (expand env value) :=
  expands_expandUpTo env le_rfl

theorem NamesEntries.of_infix {part text : List Char} (named : NamesEntries text) (inside : part <:+: text) :
    NamesEntries part :=
  fun name listed => named name (listed.trans inside)

theorem Env.var_eq_value {env : Env} {name : List Char} (plain : '=' ∉ name) :
    env.var name = env.value name := by
  unfold Env.var
  split
  · rfl
  · next key front cuts =>
    obtain ⟨split, -⟩ := splitFirst_eq_some (by decide) cuts
    exact absurd (by simp [split]) plain

/-- Names without a `=` are looked up as variables. -/
theorem Expands.value_of_var {env : Env} {text out : List Char} (expands : Expands env.var text out)
    (named : NamesEntries text) : Expands env.value text out := by
  induction expands with
  | done none => exact .done none
  | unterminated first none => exact .unterminated first none
  | @replaced before name rest out first ends _ ih =>
    have plain : '=' ∉ name := by
      apply named name _ ends
      exact ⟨before, rest, by simp⟩
    rw [Env.var_eq_value plain]
    refine .replaced first ends (ih (named.of_infix ⟨before ++ ['$', '{'] ++ name ++ ['}'], [], ?_⟩))
    simp

theorem Expands.unique {lookup : List Char → List Char} {value first second : List Char}
    (one : Expands lookup value first) (other : Expands lookup value second) :
    first = second := by
  -- Each rule says where the first reference is, and two such places are the same.
  induction one generalizing second with
  | done none =>
    cases other with
    | done => rfl
    | unterminated => rfl
    | replaced => exact absurd (List.infix_append _ _ _) none
  | unterminated absent open_ =>
    generalize whole : _ ++ ['$', '{'] ++ _ = value at other
    cases other with
    | done => rfl
    | unterminated => rfl
    | replaced also ends expands =>
      obtain ⟨rfl, rfl⟩ := cut_unique (by decide) absent also whole
      simp at open_
  | replaced absent ends expands ih =>
    generalize whole : _ ++ ['$', '{'] ++ _ = value at other
    cases other with
    | done none =>
      rw [← whole] at none
      exact absurd (List.infix_append _ _ _) none
    | unterminated also none =>
      obtain ⟨rfl, rfl⟩ := cut_unique (by decide) absent also whole
      simp at none
    | replaced also endsToo expandsToo =>
      obtain ⟨rfl, same⟩ := cut_unique (by decide) absent also whole
      obtain ⟨rfl, rfl⟩ := cut_at_unique ends endsToo same
      rw [ih expandsToo]

/-- A character that opens no name is passed through. -/
theorem Expands.cons {lookup : List Char → List Char} {c : Char} (plain : c ≠ '$')
    {value out : List Char} (expands : Expands lookup value out) :
    Expands lookup (c :: value) (c :: out) := by
  have still {before : List Char} (first : ¬ ['$', '{'] <:+: before) :
      ¬ ['$', '{'] <:+: c :: before := by
    rw [List.infix_cons_iff, not_or]
    refine ⟨fun opening => plain ?_, first⟩
    simpa using (List.cons_prefix_cons.mp opening).1.symm
  cases expands with
  | done none => exact .done (still none)
  | unterminated first none => exact .unterminated (still first) none
  | replaced first ends rest => exact .replaced (still first) ends rest

/-- A character that neither opens nor closes a name is passed through at the end. -/
theorem Expands.concat {lookup : List Char → List Char} {c : Char} (opens : c ≠ '{')
    (closes : c ≠ '}') {value out : List Char} (expands : Expands lookup value out) :
    Expands lookup (value ++ [c]) (out ++ [c]) := by
  induction expands with
  | done none =>
    apply Expands.done
    rw [List.infix_concat_iff, not_or]
    refine ⟨?_, none⟩
    rintro ⟨front, whole⟩
    have last := congrArg List.getLast? whole
    simp only [List.getLast?_append, List.getLast?_cons_cons, List.getLast?_singleton,
      Option.some_or, Option.some.injEq] at last
    exact opens last.symm
  | unterminated first none =>
    rw [List.append_assoc]
    exact .unterminated first (by simp [none, closes.symm])
  | replaced first ends rest ih =>
    have whole : Expands lookup _ _ := .replaced first ends ih
    simpa only [List.append_assoc, List.cons_append] using whole

theorem Expands.surround {lookup : List Char → List Char} {front back value out : List Char}
    (expands : Expands lookup value out) (opening : ∀ c ∈ front, isQuote c = true)
    (closing : ∀ c ∈ back, isQuote c = true) :
    Expands lookup (front ++ value ++ back) (front ++ out ++ back) := by
  -- No quote is a dollar or a brace, so a quote at either end starts no reference.
  have started : Expands lookup (front ++ value) (front ++ out) := by
    induction front with
    | nil => exact expands
    | cons c front ih =>
      apply Expands.cons
      · rintro rfl
        exact absurd (opening _ List.mem_cons_self) (by decide)
      · exact ih fun c member => opening c (List.mem_cons_of_mem _ member)
  induction back using List.reverseRecOn with
  | nil => simpa using started
  | append_singleton back c ih =>
    rw [← List.append_assoc, ← List.append_assoc]
    have quote : isQuote c = true := closing c (by simp)
    apply Expands.concat
    · rintro rfl
      exact absurd quote (by decide)
    · rintro rfl
      exact absurd quote (by decide)
    · exact ih fun c member => closing c (List.mem_append_left _ member)

/-! ### Quotes -/

/-- The value has at most one pair of quotes at its ends: within single quotes, no
further single quote stands at either end; within double quotes, no further quote
does; and a value without a pair has no quote at either end. -/
inductive PlainQuotes : List Char → Prop where
  | single {inner : List Char} (opens : inner.head? ≠ some '\'')
      (closes : inner.getLast? ≠ some '\'') : PlainQuotes ('\'' :: inner ++ ['\''])
  | double {inner : List Char} (opens : inner.head?.any isQuote = false)
      (closes : inner.getLast?.any isQuote = false) : PlainQuotes ('"' :: inner ++ ['"'])
  | bare {value : List Char} (opens : value.head?.any isQuote = false)
      (closes : value.getLast?.any isQuote = false) : PlainQuotes value

theorem any_isQuote_eq_false {c : Option Char} :
    c.any isQuote = false ↔ c ≠ some '"' ∧ c ≠ some '\'' := by
  cases c <;> simp [isQuote]

theorem trimQuotes_eq_self {value : List Char} : trimQuotes value = value ↔
    value.head?.any isQuote = false ∧ value.getLast?.any isQuote = false := by
  rw [any_isQuote_eq_false, any_isQuote_eq_false]
  constructor
  · intro same
    have shorter := length_trimMatches_le '\'' (trimMatches '"' value)
    have first : trimMatches '"' value = value := by
      apply trimMatches_eq_self_of_length
      rwa [← trimQuotes, same] at shorter
    rw [trimQuotes, first] at same
    exact ⟨⟨(trimMatches_eq_self.mp first).1, (trimMatches_eq_self.mp same).1⟩,
      ⟨(trimMatches_eq_self.mp first).2, (trimMatches_eq_self.mp same).2⟩⟩
  · rintro ⟨⟨double, single⟩, ⟨doubleEnd, singleEnd⟩⟩
    rw [trimQuotes, trimMatches_eq_self.mpr ⟨double, doubleEnd⟩,
      trimMatches_eq_self.mpr ⟨single, singleEnd⟩]

theorem trimQuotes_double (inner : List Char) :
    trimQuotes ('"' :: inner ++ ['"']) = trimQuotes inner := by
  rw [trimQuotes, trimMatches_surrounded, trimQuotes]

theorem trimQuotes_single (inner : List Char) :
    trimQuotes ('\'' :: inner ++ ['\'']) = trimMatches '\'' inner := by
  have apart : trimMatches '"' ('\'' :: inner ++ ['\'']) = '\'' :: inner ++ ['\''] := by
    rw [trimMatches_eq_self, List.getLast?_concat]
    simp
  rw [trimQuotes, apart, trimMatches_surrounded]

/-- The value rid of its one pair of quotes is what `trim_matches` leaves exactly if
the quotes are plain. -/
theorem unquoted_trimQuotes_iff {value : List Char} :
    Unquoted value (trimQuotes value) ↔ PlainQuotes value := by
  constructor
  · generalize trimmed : trimQuotes value = result
    intro unquoted
    cases unquoted with
    | @pair quote inner isOne =>
      -- Stripping takes every quote, so it leaves the inner value only if that has none at its
      -- ends.
      obtain rfl | rfl : quote = '"' ∨ quote = '\'' := by simpa [isQuote] using isOne
      · rw [trimQuotes_double] at trimmed
        exact .double (trimQuotes_eq_self.mp trimmed).1 (trimQuotes_eq_self.mp trimmed).2
      · rw [trimQuotes_single] at trimmed
        exact .single (trimMatches_eq_self.mp trimmed).1 (trimMatches_eq_self.mp trimmed).2
    | bare => exact .bare (trimQuotes_eq_self.mp trimmed).1 (trimQuotes_eq_self.mp trimmed).2
  · intro plain
    cases plain with
    | single opens closes =>
      rw [trimQuotes_single, trimMatches_eq_self.mpr ⟨opens, closes⟩]
      exact .pair rfl
    | double opens closes =>
      rw [trimQuotes_double, trimQuotes_eq_self.mpr ⟨opens, closes⟩]
      exact .pair rfl
    | bare opens closes =>
      rw [trimQuotes_eq_self.mpr ⟨opens, closes⟩]
      apply Unquoted.bare
      rintro quote inner isOne rfl
      simp [isOne] at opens

theorem exists_trimQuotes (value : List Char) : ∃ front back : List Char,
    value = front ++ trimQuotes value ++ back ∧ (∀ c ∈ front, isQuote c = true) ∧
      ∀ c ∈ back, isQuote c = true := by
  obtain ⟨front, back, split, opening, closing⟩ := exists_trimMatches '"' value
  obtain ⟨inFront, inBack, within, opens, closes⟩ := exists_trimMatches '\'' (trimMatches '"' value)
  refine ⟨front ++ inFront, inBack ++ back, ?_, ?_, ?_⟩
  · rw [trimQuotes]
    calc value = front ++ trimMatches '"' value ++ back := split
      _ = front ++ (inFront ++ trimMatches '\'' (trimMatches '"' value) ++ inBack) ++ back := by
        rw [← within]
      _ = _ := by simp only [List.append_assoc]
  · intro c member
    rcases List.mem_append.mp member with outer | inner
    · simp [isQuote, opening c outer]
    · simp [isQuote, opens c inner]
  · intro c member
    rcases List.mem_append.mp member with inner | outer
    · simp [isQuote, closes c inner]
    · simp [isQuote, closing c outer]

/-- Without its one pair of quotes, a value is what `trim_matches` leaves, between
quotes. -/
theorem Unquoted.exists_quotes {value unquoted : List Char} (u : Unquoted value unquoted) :
    ∃ front back : List Char, unquoted = front ++ trimQuotes value ++ back ∧
      (∀ c ∈ front, isQuote c = true) ∧ ∀ c ∈ back, isQuote c = true := by
  cases u with
  | @pair quote inner isOne =>
    obtain rfl | rfl : quote = '"' ∨ quote = '\'' := by simpa [isQuote] using isOne
    · rw [trimQuotes_double]
      exact exists_trimQuotes _
    · rw [trimQuotes_single]
      obtain ⟨front, back, split, opening, closing⟩ := exists_trimMatches '\'' unquoted
      exact ⟨front, back, split, fun c member => by simp [isQuote, opening c member],
        fun c member => by simp [isQuote, closing c member]⟩
  | bare => exact exists_trimQuotes _

theorem trimEnd_begins (text : List Char) : trimEnd text <+: text :=
  List.rdropWhile_prefix _ _

theorem trim_within (text : List Char) : trim text <:+: text :=
  (trimEnd_begins _).isInfix.trans (List.dropWhile_suffix _).isInfix

theorem stripInlineComment_begins (value : List Char) : stripInlineComment value <+: value := by
  unfold stripInlineComment
  split_ifs
  · exact List.prefix_rfl
  · split
    · next before after cuts =>
      obtain ⟨split, -⟩ := splitFirst_eq_some (by decide) cuts
      rw [split, List.append_assoc]
      exact (trimEnd_begins before).trans (List.prefix_append _ _)
    · exact List.prefix_rfl

theorem trimQuotes_within (value : List Char) : trimQuotes value <:+: value := by
  obtain ⟨front, back, split, -⟩ := exists_trimQuotes value
  exact ⟨front, back, split.symm⟩

/-- What is expanded refers to no more names than the raw text. -/
theorem NamesEntries.trimmed {raw : List Char} (named : NamesEntries raw) :
    NamesEntries (trimQuotes (stripInlineComment (trim raw))) :=
  named.of_infix ((trimQuotes_within _).trans ((stripInlineComment_begins _).isInfix.trans
    (trim_within raw)))

/-- The value a definition is given is the one it should have exactly if its quotes
are plain. -/
theorem dotenvValue_iff {env : Env} {raw : List Char} (named : NamesEntries raw) :
    DotenvValue env raw (expand env (trimQuotes (stripInlineComment (trim raw)))) ↔
      PlainQuotes (stripInlineComment (trim raw)) := by
  rw [← unquoted_trimQuotes_iff]
  have expanded := (expands_expand env _).value_of_var named.trimmed
  constructor
  · rintro ⟨uncommented, unquoted, comment, quotes, expands⟩
    obtain rfl := comment.unique (uncommented_stripInlineComment _)
    obtain ⟨front, back, split, opening, closing⟩ := quotes.exists_quotes
    have around := expanded.surround opening closing
    rw [split] at expands
    have whole := congrArg List.length (expands.unique around)
    simp only [List.length_append] at whole
    obtain rfl : front = [] := List.length_eq_zero_iff.mp (by omega)
    obtain rfl : back = [] := List.length_eq_zero_iff.mp (by omega)
    simpa [split] using quotes
  · intro quotes
    exact ⟨_, _, uncommented_stripInlineComment _, quotes, expanded⟩

/-! ### The whole file -/

/-- What one definition does. -/
def loadDefinition (env : Env) (defined : List Char × List Char) : Option Env :=
  if (env defined.1).isSome then some env
  else env.setVar defined.1 (expand env (trimQuotes (stripInlineComment (trim defined.2))))

theorem loadLine_eq (env : Env) (line : List Char) :
    loadLine env line = (definition line).elim (some env) (loadDefinition env) := by
  unfold loadLine definition
  simp only
  split_ifs with skipped
  · rfl
  · cases splitFirst ['='] (trim line) with
    | none => rfl
    | some parts =>
      by_cases empty : trim parts.1 = []
      · simp [empty]
      · simp [empty, loadDefinition]

theorem foldlM_loadLine (lines : List (List Char)) (env : Env) :
    lines.foldlM loadLine env = (lines.filterMap definition).foldlM loadDefinition env := by
  induction lines generalizing env with
  | nil => rfl
  | cons line lines ih =>
    rw [List.foldlM_cons, loadLine_eq, List.filterMap_cons]
    cases definition line with
    | none => exact ih env
    | some defined =>
      rw [List.foldlM_cons, Option.elim_some]
      congr 1
      funext next
      exact ih next

theorem loadDotenvFrom_eq (contents : Option (List Char)) (env : Env) :
    loadDotenvFrom contents env = (definitions contents).foldlM loadDefinition env := by
  cases contents with
  | none => rfl
  | some contents => exact foldlM_loadLine (lines contents) env

section File

variable {env next final : Env} {defined : List Char × List Char}
  {defs : List (List Char × List Char)} {name raw : List Char}

theorem loadDefinition_of_isSome (set : (env defined.1).isSome = true) :
    loadDefinition env defined = some env := by
  rw [loadDefinition, if_pos set]

theorem loadDefinition_of_none (unset : env defined.1 = none)
    (loaded : loadDefinition env defined = some next) :
    next = Function.update env defined.1
      (some (.text (expand env (trimQuotes (stripInlineComment (trim defined.2)))))) := by
  simp only [loadDefinition, unset, Option.isSome_none, Bool.false_eq_true, if_false, Env.setVar]
    at loaded
  split_ifs at loaded
  exact (Option.some.inj loaded).symm

theorem loadDefinition_of_ne (other : name ≠ defined.1)
    (loaded : loadDefinition env defined = some next) : next name = env name := by
  cases unset : env defined.1 with
  | none =>
    rw [loadDefinition_of_none unset loaded]
    exact Function.update_of_ne other _ _
  | some value =>
    rw [loadDefinition_of_isSome (by simp [unset])] at loaded
    rw [← Option.some.inj loaded]

/-- What is set stays as it is. -/
theorem loadDefinition_kept (loaded : loadDefinition env defined = some next)
    (set : (env name).isSome = true) : next name = env name := by
  by_cases same : name = defined.1
  · subst same
    rw [loadDefinition_of_isSome set] at loaded
    rw [← Option.some.inj loaded]
  · exact loadDefinition_of_ne same loaded

theorem loadDefinition_isSome (loaded : loadDefinition env defined = some next) :
    (next defined.1).isSome = true := by
  cases unset : env defined.1 with
  | none =>
    rw [loadDefinition_of_none unset loaded, Function.update_self]
    rfl
  | some value =>
    rw [loadDefinition_kept loaded (by simp [unset]), unset]
    rfl

theorem foldlM_kept (loaded : defs.foldlM loadDefinition env = some final)
    (set : (env name).isSome = true) : final name = env name := by
  induction defs generalizing env with
  | nil => rw [← Option.some.inj loaded]
  | cons defined defs ih =>
    obtain ⟨next, one, rest⟩ := Option.bind_eq_some_iff.mp loaded
    have same := loadDefinition_kept one set
    rw [ih rest (by rwa [same]), same]

theorem foldlM_undefined (loaded : defs.foldlM loadDefinition env = some final)
    (absent : name ∉ defs.map Prod.fst) : final name = env name := by
  induction defs generalizing env with
  | nil => rw [← Option.some.inj loaded]
  | cons defined defs ih =>
    obtain ⟨next, one, rest⟩ := Option.bind_eq_some_iff.mp loaded
    rw [List.map_cons, List.mem_cons, not_or] at absent
    rw [ih rest absent.2, loadDefinition_of_ne absent.1 one]

theorem foldlM_isSome (loaded : defs.foldlM loadDefinition env = some final)
    (listed : name ∈ defs.map Prod.fst) : (final name).isSome = true := by
  induction defs generalizing env with
  | nil => cases listed
  | cons defined defs ih =>
    obtain ⟨next, one, rest⟩ := Option.bind_eq_some_iff.mp loaded
    rcases List.mem_cons.mp listed with rfl | later
    · have set := loadDefinition_isSome one
      rwa [foldlM_kept rest set]
    · exact ih rest later

/-- Whatever an environment was at some moment can be read off the last one. -/
theorem eq_moment {before after : List (List Char × List Char)} {mid : Env}
    (first : before.foldlM loadDefinition env = some mid)
    (rest : after.foldlM loadDefinition mid = some final) : mid = moment env final before := by
  funext name
  unfold moment
  split_ifs with set
  · have known : (mid name).isSome = true := by
      rcases set with start | listed
      · rwa [foldlM_kept first start]
      · exact foldlM_isSome first listed
    exact (foldlM_kept rest known).symm
  · rw [not_or, Bool.not_eq_true, Option.isSome_eq_false_iff, Option.isNone_iff_eq_none] at set
    rw [foldlM_undefined first set.2, set.1]

/-- The first definition of an unset name gives it its value. -/
theorem foldlM_defined {before after : List (List Char × List Char)}
    (loaded : (before ++ (name, raw) :: after).foldlM loadDefinition env = some final)
    (unset : env name = none) (absent : name ∉ before.map Prod.fst) :
    final name = some (.text (expand (moment env final before)
      (trimQuotes (stripInlineComment (trim raw))))) := by
  rw [List.foldlM_append] at loaded
  obtain ⟨mid, first, rest⟩ := Option.bind_eq_some_iff.mp loaded
  have now := eq_moment first rest
  obtain ⟨next, one, last⟩ := Option.bind_eq_some_iff.mp rest
  have still : mid name = none := by rw [foldlM_undefined first absent, unset]
  have here : next name =
    some (.text (expand mid (trimQuotes (stripInlineComment (trim raw))))) := by
    rw [loadDefinition_of_none still one, Function.update_self]
  rw [foldlM_kept last (by rw [here]; rfl), here, ← now]

end File

/-- **Dotenv values.** After a file that refers to no name with a `=` is loaded, the
environment is as it should be exactly if the quotes of every value that is used are plain. -/
theorem dotenvLaw_iff {contents : Option (List Char)} {env final : Env}
    (named : ∀ defined ∈ definitions contents, NamesEntries defined.2)
    (loaded : loadDotenvFrom contents env = some final) :
    DotenvLaw env final (definitions contents) ↔
      ∀ before name raw after, definitions contents = before ++ (name, raw) :: after →
        env name = none → name ∉ before.map Prod.fst →
          PlainQuotes (stripInlineComment (trim raw)) := by
  rw [loadDotenvFrom_eq] at loaded
  have used {before name raw after} (split : definitions contents = before ++ (name, raw) :: after) :
      NamesEntries raw := by
    apply named (name, raw)
    rw [split]
    exact List.mem_append_right _ List.mem_cons_self
  -- The law speaks of the value that was set, which is right exactly when its quotes are plain.
  constructor
  · intro law before name raw after split unset absent
    obtain ⟨value, right, found⟩ := law.defined before name raw after split unset absent
    rw [split] at loaded
    rw [foldlM_defined loaded unset absent] at found
    obtain rfl : _ = value := by simpa using found
    exact (dotenvValue_iff (used split)).mp right
  · intro plain
    refine ⟨fun name => foldlM_kept loaded, fun name unset absent => ?_, ?_⟩
    · rw [foldlM_undefined loaded absent, unset]
    · intro before name raw after split unset absent
      have right := (@dotenvValue_iff (moment env final before) raw (used split)).mpr
        (plain before name raw after split unset absent)
      rw [split] at loaded
      exact ⟨_, right, foldlM_defined loaded unset absent⟩

theorem NamesEntries.of_none {text : List Char} (none : ¬ ['$', '{'] <:+: text) : NamesEntries text := by
  intro name listed
  refine absurd (List.IsInfix.trans ?_ listed) none
  rw [List.append_assoc]
  exact (List.prefix_append _ _).isInfix

/-- `A='b'`. -/
def quotedFile : List Char := ['A', '=', '\'', 'b', '\'']

/-- `A=b'`. -/
def quoteEndedFile : List Char := ['A', '=', 'b', '\'']

theorem quoted_value_loads : ∃ final,
    loadDotenvFrom (some quotedFile) (fun _ => none) = some final ∧
      DotenvLaw (fun _ => none) final (definitions (some quotedFile)) := by
  have defs : definitions (some quotedFile) = [(['A'], ['\'', 'b', '\''])] := by decide
  have loads : (loadDotenvFrom (some quotedFile) fun _ => none).isSome = true := by decide
  obtain ⟨final, loaded⟩ := Option.isSome_iff_exists.mp loads
  have named : ∀ defined ∈ definitions (some quotedFile), NamesEntries defined.2 := by
    rw [defs]
    intro defined listed
    rw [List.mem_singleton.mp listed]
    exact .of_none (by decide)
  refine ⟨final, loaded, (dotenvLaw_iff named loaded).mpr ?_⟩
  intro before name raw after split _ _
  have member : (name, raw) ∈ definitions (some quotedFile) := by
    rw [split]
    exact List.mem_append_right _ List.mem_cons_self
  rw [defs, List.mem_singleton] at member
  cases member
  have plain : PlainQuotes ('\'' :: ['b'] ++ ['\'']) := .single (by decide) (by decide)
  exact plain

/-- A secret that ends in a quote loses it. -/
theorem closing_quote_is_lost : ∃ final,
    loadDotenvFrom (some quoteEndedFile) (fun _ => none) = some final ∧
      final ['A'] = some (.text ['b']) ∧
      ¬ DotenvLaw (fun _ => none) final (definitions (some quoteEndedFile)) := by
  have defs : definitions (some quoteEndedFile) = [] ++ [(['A'], ['b', '\''])] := by decide
  have loads : loadDotenvFrom (some quoteEndedFile) (fun _ => none) =
      some (Function.update (fun _ => none) ['A'] (some (.text ['b']))) := by rfl
  refine ⟨_, loads, Function.update_self .., fun law => ?_⟩
  obtain ⟨value, right, found⟩ := law.defined [] ['A'] ['b', '\''] [] defs rfl (by simp)
  obtain rfl : ['b'] = value := by simpa using found
  have plain : PlainQuotes ['b', '\''] := (dotenvValue_iff (.of_none (by decide))).mp right
  generalize whole : ['b', '\''] = text at plain
  cases plain with
  | single => simp at whole
  | double => simp at whole
  | bare opens closes =>
    subst whole
    exact absurd closes (by decide)

end MempoolObserver
