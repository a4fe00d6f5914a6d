import FosCoverage.Lib.JsonText

/-!
# JSON texts of records

`json.dumps` with `ensure_ascii=False`, `sort_keys=True`, the separators `,` and `:` and a `default`
function that gives a text for the values that JSON does not have.

* `dumps` is the text of a value, and `canonical` the value without what the text does not show: the
  order of the keys of a dictionary, and whether a text was given as one or made by `default`.
* `Decodes` says that a value is determined by its text, whatever stands behind it.  It is proved for
  each kind of value: a number ends where a separator begins (`token_inj`), a text at its closing quote
  (`quoteRaw_inj`), lists and dictionaries part by part (`commas_inj`).
* `dumps_eq_iff` is the result: **two values have the same text exactly when their canonical values are
  the same.**
-/

set_option autoImplicit false

namespace CompactJson

open JsonText

/-! ## Values and their texts -/

/-- What `json.dumps` writes for a number that is not whole, or for no number. -/
@[ext]
structure FloatText where
  /-- The text. -/
  text : List Char
  /-- It begins as a number does, or as `NaN` or `Infinity`. -/
  starts : ∃ c cs, text = c :: cs ∧ (c = '-' ∨ c.isDigit = true ∨ c = 'N' ∨ c = 'I')
  /-- It has no separator. -/
  plain : ∀ c ∈ text, c ≠ ',' ∧ c ≠ ']' ∧ c ≠ '\x7d'
  /-- It is no whole number. -/
  notWhole : ∃ c ∈ text, c ≠ '-' ∧ c.isDigit = false

/-- A value that has a JSON text. -/
inductive Value
  /-- `None` -/
  | null
  /-- A truth value. -/
  | bool (b : Bool)
  /-- A whole number. -/
  | int (n : Int)
  /-- Another number. -/
  | float (f : FloatText)
  /-- A text. -/
  | text (s : String)
  /-- A value that `default` makes a text of. -/
  | other (s : String)
  /-- A list. -/
  | list (items : List Value)
  /-- A dictionary. -/
  | dict (entries : List (String × Value))

/-- A character of a text: only quotes, backslashes and control characters are escaped. -/
def escapeRaw (c : Char) : List Char :=
  match shortEscapes.lookup c with
  | some letter => ['\\', letter]
  | none => if c.toNat < 32 then escapeUnit c.toNat else [c]

/-- A text in quotes. -/
def quoteRaw (s : String) : List Char := '"' :: s.toList.flatMap escapeRaw ++ ['"']

/-- An entry of a dictionary whose value has been written. -/
def entryText (e : String × List Char) : List Char := quoteRaw e.1 ++ ':' :: e.2

namespace Value

mutual

/-- `json.dumps(value, ensure_ascii=False, sort_keys=True, separators=(",", ":"), default=…)` -/
def dumps : Value → List Char
  | null => "null".toList
  | bool b => if b then "true".toList else "false".toList
  | int n => decimal n
  | float f => f.text
  | text s => quoteRaw s
  | other s => quoteRaw s
  | list items => '[' :: commas (dumpItems items) ++ [']']
  | dict entries => '\x7b' :: commas ((sortKeys (dumpEntries entries)).map entryText) ++ ['\x7d']

/-- The elements of a list. -/
def dumpItems : List Value → List (List Char)
  | [] => []
  | item :: items => dumps item :: dumpItems items

/-- The values of a dictionary, each with its key. -/
def dumpEntries : List (String × Value) → List (String × List Char)
  | [] => []
  | (key, value) :: entries => (key, dumps value) :: dumpEntries entries

end

mutual

/-- The value without what its text does not show. -/
def canonical : Value → Value
  | other s => text s
  | list items => list (canonicalItems items)
  | dict entries => dict (sortKeys (canonicalEntries entries))
  | v => v

/-- The elements of a list. -/
def canonicalItems : List Value → List Value
  | [] => []
  | item :: items => canonical item :: canonicalItems items

/-- The values of a dictionary, each with its key. -/
def canonicalEntries : List (String × Value) → List (String × Value)
  | [] => []
  | (key, value) :: entries => (key, canonical value) :: canonicalEntries entries

end

theorem dumpItems_eq_map (items : List Value) : dumpItems items = items.map dumps := by
  induction items with
  | nil => rfl
  | cons item items ih => rw [dumpItems, ih, List.map_cons]

theorem dumpEntries_eq_map (entries : List (String × Value)) :
    dumpEntries entries = entries.map fun e => (e.1, e.2.dumps) := by
  induction entries with
  | nil => rfl
  | cons e entries ih => rw [dumpEntries, ih, List.map_cons]

theorem canonicalItems_eq_map (items : List Value) :
    canonicalItems items = items.map canonical := by
  induction items with
  | nil => rfl
  | cons item items ih => rw [canonicalItems, ih, List.map_cons]

theorem canonicalEntries_eq_map (entries : List (String × Value)) :
    canonicalEntries entries = entries.map fun e => (e.1, e.2.canonical) := by
  induction entries with
  | nil => rfl
  | cons e entries ih => rw [canonicalEntries, ih, List.map_cons]

/-- The keys are sorted before or after the values are replaced. -/
theorem sortKeys_map {β γ : Type} (f : β → γ) (entries : List (String × β)) :
    sortKeys (entries.map fun e => (e.1, f e.2)) = (sortKeys entries).map fun e => (e.1, f e.2) :=
  (List.map_insertionSort (fun a b : String × β => a.1.toList ≤ b.1.toList)
    (fun a b : String × γ => a.1.toList ≤ b.1.toList) (fun e => (e.1, f e.2)) _
    fun _ _ _ _ => Iff.rfl).symm

theorem sortKeys_sortKeys {β : Type} (entries : List (String × β)) :
    sortKeys (sortKeys entries) = sortKeys entries := by
  have htotal : Std.Total fun a b : String × β => a.1.toList ≤ b.1.toList :=
    ⟨fun a b => le_total a.1.toList b.1.toList⟩
  have htrans : IsTrans (String × β) fun a b => a.1.toList ≤ b.1.toList :=
    ⟨fun _ _ _ => le_trans⟩
  exact (List.pairwise_insertionSort _ entries).insertionSort_eq

/-- The text of an entry. -/
def entry (e : String × Value) : List Char := entryText (e.1, e.2.dumps)

theorem dumps_dict (entries : List (String × Value)) : (dict entries).dumps =
    '\x7b' :: commas ((sortKeys entries).map entry) ++ ['\x7d'] := by
  rw [dumps, dumpEntries_eq_map, sortKeys_map, List.map_map]
  rfl

theorem canonical_dict (entries : List (String × Value)) : (dict entries).canonical =
    dict ((sortKeys entries).map fun e => (e.1, e.2.canonical)) := by
  rw [canonical, canonicalEntries_eq_map, sortKeys_map]

end Value

/-! ## What ends a value -/

/-- Nothing, or a separator. -/
def Stops (rest : List Char) : Prop := ∀ c ∈ rest.head?, c = ',' ∨ c = ']' ∨ c = '\x7d'

theorem Stops.cons {c : Char} (h : c = ',' ∨ c = ']' ∨ c = '\x7d') (rest : List Char) :
    Stops (c :: rest) := by
  intro d hd
  rw [← Option.some.inj hd]
  exact h

/-- A piece of text without a separator ends at the first separator. -/
theorem token_inj {a b r r' : List Char} (ha : ∀ c ∈ a, c ≠ ',' ∧ c ≠ ']' ∧ c ≠ '\x7d')
    (hb : ∀ c ∈ b, c ≠ ',' ∧ c ≠ ']' ∧ c ≠ '\x7d') (hr : Stops r) (hr' : Stops r')
    (h : a ++ r = b ++ r') : a = b ∧ r = r' := by
  have hcut : ∀ {a r : List Char}, (∀ c ∈ a, c ≠ ',' ∧ c ≠ ']' ∧ c ≠ '\x7d') → Stops r →
      (a ++ r).takeWhile (fun c => c ≠ ',' ∧ c ≠ ']' ∧ c ≠ '\x7d') = a := by
    intro a r ha hr
    rw [List.takeWhile_append_of_pos (by simpa using ha)]
    cases r with
    | nil => simp
    | cons c r =>
      rw [List.takeWhile_cons_of_neg, List.append_nil]
      have hc := hr c rfl
      simp only [decide_eq_true_eq]
      rintro ⟨h1, h2, h3⟩
      rcases hc with rfl | rfl | rfl
      · exact h1 rfl
      · exact h2 rfl
      · exact h3 rfl
  have heq : a = b := by rw [← hcut ha hr, h, hcut hb hr']
  subst heq
  exact ⟨rfl, List.append_cancel_left h⟩

/-! ## Texts and numbers -/

theorem units_escapeRaw (c : Char) (cs : List Char) :
    units (escapeRaw c ++ cs) = (units cs).map fun r => (c.toNat :: r.1, r.2) := by
  unfold escapeRaw
  split
  · next letter hletter =>
    obtain ⟨hu, hunescape, -⟩ := unescape_shortEscapes _ (Relational.mem_of_lookup hletter)
    rw [List.cons_append, List.cons_append, List.nil_append, units_letter hu hunescape]
  · next hnone =>
    split
    · next hcontrol => exact units_escapeUnit (by omega) cs
    · next hplain =>
      have hquote : c ≠ '"' := by
        rintro rfl
        exact absurd hnone (by decide)
      have hslash : c ≠ '\\' := by
        rintro rfl
        exact absurd hnone (by decide)
      exact units_plain hquote hslash (Nat.not_lt.1 hplain) cs

theorem joinUnits_toNat (s : List Char) : joinUnits (s.map Char.toNat) = some s := by
  induction s with
  | nil => rfl
  | cons c s ih =>
    rw [List.map_cons, joinUnits.eq_def]
    simp only [(not_surrogate c).1, (not_surrogate c).2, Bool.false_eq_true, if_false, ih,
      Option.map_some, Char.ofNat_toNat]

theorem string_escapeRaw (s : String) (rest : List Char) :
    string (s.toList.flatMap escapeRaw ++ '"' :: rest) = some (s, rest) := by
  have hunits : ∀ cs : List Char, units (cs.flatMap escapeRaw ++ '"' :: rest) =
      some (cs.map Char.toNat, rest) := by
    intro cs
    induction cs with
    | nil => exact units_quote rest
    | cons c cs ih =>
      rw [List.flatMap_cons, List.append_assoc, units_escapeRaw, ih]
      rfl
  rw [string, hunits]
  simp only [Option.bind_eq_bind, Option.bind_some, joinUnits_toNat, Option.pure_def,
    String.ofList_toList]

/-- **A text ends at its closing quote.** -/
theorem quoteRaw_inj {s t : String} {r r' : List Char} (h : quoteRaw s ++ r = quoteRaw t ++ r') :
    s = t ∧ r = r' := by
  have htail : s.toList.flatMap escapeRaw ++ '"' :: r =
      t.toList.flatMap escapeRaw ++ '"' :: r' := by
    simpa [quoteRaw] using h
  have hs := string_escapeRaw s r
  rw [htail, string_escapeRaw t r'] at hs
  obtain ⟨ht, hr⟩ := Prod.mk.inj (Option.some.inj hs)
  exact ⟨ht.symm, hr.symm⟩

/-- **A whole number is determined by its text.** -/
theorem decimal_inj {m n : Int} (h : decimal m = decimal n) : m = n := by
  have hread : ∀ n : Int, loads (fun _ => ⟨"", false, .ok 0⟩) (decimal n) = some (.int n) :=
    fun n => (Reads.int n).loads
  have hm := hread m
  rw [h, hread n] at hm
  exact (Json.int.inj (Option.some.inj hm)).symm

theorem mem_decimal {n : Int} {c : Char} (h : c ∈ decimal n) : c = '-' ∨ c.isDigit = true := by
  unfold decimal at h
  split at h
  · rcases List.mem_cons.1 h with rfl | h
    · exact .inl rfl
    · exact .inr (isDigit_toDigits h)
  · exact .inr (isDigit_toDigits h)

/-! ## Parts -/

theorem commas_cons (p : List Char) (ps : List (List Char)) :
    commas (p :: ps) = p ++ if ps = [] then [] else ',' :: commas ps := by
  cases ps with
  | nil =>
    rw [if_pos rfl, List.append_nil]
    rfl
  | cons q ps =>
    rw [if_neg (List.cons_ne_nil q ps)]
    rfl

/-- **Parts with commas between them are determined by the text**, when each part is: `f` writes a
part, and `g` is what its text determines. -/
theorem commas_inj {α β : Type} {f : α → List Char} {g : α → β} {stop : Char}
    (hstop : stop = ']' ∨ stop = '\x7d') (hstart : ∀ a, ∃ c cs, f a = c :: cs ∧ c ≠ stop)
    {as bs : List α}
    (hdecodes : ∀ a ∈ as, ∀ b r r', Stops r → Stops r' → f a ++ r = f b ++ r' → g a = g b ∧ r = r')
    {r r' : List Char}
    (h : commas (as.map f) ++ stop :: r = commas (bs.map f) ++ stop :: r') :
    as.map g = bs.map g ∧ r = r' := by
  have hstops : ∀ r : List Char, Stops (stop :: r) := fun r =>
    Stops.cons (hstop.elim (fun h => .inr (.inl h)) fun h => .inr (.inr h)) r
  have hcomma : stop ≠ ',' := by rcases hstop with rfl | rfl <;> decide
  have hnil : ∀ (a : α) (as : List α) (r r' : List Char),
      commas ((a :: as).map f) ++ stop :: r ≠ stop :: r' := by
    intro a as r r' h
    obtain ⟨c, cs, hc, hne⟩ := hstart a
    rw [List.map_cons, commas_cons, hc, List.cons_append, List.cons_append] at h
    exact hne (List.cons.inj h).1
  induction as generalizing bs with
  | nil =>
    cases bs with
    | nil => exact ⟨rfl, (List.cons.inj h).2⟩
    | cons b bs => exact absurd h.symm (hnil b bs r' r)
  | cons a as ih =>
    cases bs with
    | nil => exact absurd h (hnil a as r r')
    | cons b bs =>
      obtain ⟨ha, has⟩ := List.forall_mem_cons.1 hdecodes
      rw [List.map_cons, List.map_cons, commas_cons, commas_cons, List.append_assoc,
        List.append_assoc] at h
      have htail : ∀ (as : List α) (r : List Char),
          Stops ((if as.map f = [] then [] else ',' :: commas (as.map f)) ++ stop :: r) := by
        intro as r
        split
        · exact hstops r
        · exact Stops.cons (.inl rfl) _
      obtain ⟨heq, hrest⟩ := ha b _ _ (htail as r) (htail bs r') h
      cases as with
      | nil =>
        cases bs with
        | nil => exact ⟨by rw [List.map_cons, heq]; rfl, (List.cons.inj hrest).2⟩
        | cons b' bs => exact absurd (List.cons.inj hrest).1 hcomma
      | cons a' as =>
        cases bs with
        | nil => exact absurd (List.cons.inj hrest).1.symm hcomma
        | cons b' bs =>
          obtain ⟨hmap, hr⟩ := ih has (List.cons.inj hrest).2
          exact ⟨by rw [List.map_cons, List.map_cons (l := b' :: bs), heq, hmap], hr⟩

/-! ## Values -/

/-- The value is determined by its text, up to what the text does not show. -/
def Decodes (v : Value) : Prop :=
  ∀ (w : Value) (r r' : List Char), Stops r → Stops r' → v.dumps ++ r = w.dumps ++ r' →
    v.canonical = w.canonical ∧ r = r'

/-- The kind of value that a first character says. -/
inductive Kind
  | word
  | number
  | text
  | list
  | dict
  deriving DecidableEq

/-- The kind by the first character. -/
def kindOf (c : Char) : Kind :=
  if c = '"' then .text
  else if c = '[' then .list
  else if c = '\x7b' then .dict
  else if c = 'n' ∨ c = 't' ∨ c = 'f' then .word
  else .number

namespace Value

/-- The kind of a value. -/
def kind : Value → Kind
  | null => .word
  | bool _ => .word
  | int _ => .number
  | float _ => .number
  | text _ => .text
  | other _ => .text
  | list _ => .list
  | dict _ => .dict

/-- The first character of a text says the kind of the value, and it is no separator. -/
theorem dumps_starts (v : Value) :
    ∃ c cs, v.dumps = c :: cs ∧ kindOf c = v.kind ∧ c ≠ ',' ∧ c ≠ ']' ∧ c ≠ '\x7d' := by
  have hnumber : ∀ c, c = '-' ∨ c.isDigit = true ∨ c = 'N' ∨ c = 'I' →
      kindOf c = .number ∧ c ≠ ',' ∧ c ≠ ']' ∧ c ≠ '\x7d' := by
    intro c hc
    have hne : ∀ d : Char, ¬ (d = '-' ∨ d.isDigit = true ∨ d = 'N' ∨ d = 'I') → c ≠ d := by
      rintro d hd rfl
      exact hd hc
    refine ⟨?_, hne _ (by decide), hne _ (by decide), hne _ (by decide)⟩
    rw [kindOf, if_neg (hne _ (by decide)), if_neg (hne _ (by decide)), if_neg (hne _ (by decide)),
      if_neg]
    rintro (h | h | h)
    · exact hne 'n' (by decide) h
    · exact hne 't' (by decide) h
    · exact hne 'f' (by decide) h
  cases v with
  | null => exact ⟨'n', "ull".toList, rfl, rfl, by decide⟩
  | bool b =>
    cases b
    · exact ⟨'f', "alse".toList, rfl, rfl, by decide⟩
    · exact ⟨'t', "rue".toList, rfl, rfl, by decide⟩
  | int n =>
    cases hn : decimal n with
    | nil =>
      unfold decimal at hn
      split at hn
      · cases hn
      · exact absurd hn Nat.toDigits_ne_nil
    | cons c cs =>
      have hc : c = '-' ∨ c.isDigit = true := mem_decimal (n := n) (by rw [hn]; simp)
      exact ⟨c, cs, hn, hnumber c (hc.imp_right .inl)⟩
  | float f =>
    obtain ⟨c, cs, hf, hc⟩ := f.starts
    exact ⟨c, cs, hf, hnumber c hc⟩
  | text s => exact ⟨'"', _, rfl, rfl, by decide⟩
  | other s => exact ⟨'"', _, rfl, rfl, by decide⟩
  | list items => exact ⟨'[', _, by rw [dumps, List.cons_append], rfl, by decide⟩
  | dict entries => exact ⟨'\x7b', _, by rw [dumps, List.cons_append], rfl, by decide⟩

theorem kind_eq {v w : Value} {r r' : List Char} (h : v.dumps ++ r = w.dumps ++ r') :
    v.kind = w.kind := by
  obtain ⟨c, cs, hv, hkind, -⟩ := v.dumps_starts
  obtain ⟨d, ds, hw, hkind', -⟩ := w.dumps_starts
  rw [hv, hw, List.cons_append, List.cons_append] at h
  rw [← hkind, ← hkind', (List.cons.inj h).1]

/-- A number ends at a separator. -/
theorem dumps_plain {v : Value} (h : v.kind = .number) :
    ∀ c ∈ v.dumps, c ≠ ',' ∧ c ≠ ']' ∧ c ≠ '\x7d' := by
  cases v with
  | int n =>
    intro c hc
    have hne : ∀ d : Char, ¬ (d = '-' ∨ d.isDigit = true) → c ≠ d := by
      rintro d hd rfl
      exact hd (mem_decimal hc)
    exact ⟨hne _ (by decide), hne _ (by decide), hne _ (by decide)⟩
  | float f => exact f.plain
  | _ => cases h

theorem decodes_word {v : Value} (h : v.kind = .word) : Decodes v := by
  have hplain : ∀ {v : Value}, v.kind = .word →
      ∀ c ∈ v.dumps, c ≠ ',' ∧ c ≠ ']' ∧ c ≠ '\x7d' := by
    intro v hv
    cases v with
    | null => exact Text.forall_mem_of_all (s := "null".toList) (by decide)
    | bool b =>
      cases b
      · exact Text.forall_mem_of_all (s := "false".toList) (by decide)
      · exact Text.forall_mem_of_all (s := "true".toList) (by decide)
    | _ => cases hv
  intro w r r' hr hr' heq
  have hw : w.kind = .word := (kind_eq heq).symm.trans h
  obtain ⟨htext, hrest⟩ := token_inj (hplain h) (hplain hw) hr hr' heq
  refine ⟨?_, hrest⟩
  have hbool : ∀ b, (bool b).dumps ≠ "null".toList := by
    intro b
    cases b
    · change "false".toList ≠ _
      decide
    · change "true".toList ≠ _
      decide
  cases v with
  | null =>
    cases w with
    | null => rfl
    | bool b => exact absurd htext.symm (hbool b)
    | _ => cases hw
  | bool b =>
    cases w with
    | null => exact absurd htext (hbool b)
    | bool b' =>
      cases b
      · cases b'
        · rfl
        · exact absurd (List.cons.inj htext).1 (by decide)
      · cases b'
        · exact absurd (List.cons.inj htext).1 (by decide)
        · rfl
    | _ => cases hw
  | _ => cases h

theorem decodes_number {v : Value} (h : v.kind = .number) : Decodes v := by
  intro w r r' hr hr' heq
  have hw : w.kind = .number := (kind_eq heq).symm.trans h
  obtain ⟨htext, hrest⟩ := token_inj (dumps_plain h) (dumps_plain hw) hr hr' heq
  refine ⟨?_, hrest⟩
  have hmixed : ∀ (n : Int) (f : FloatText), decimal n ≠ f.text := by
    intro n f heq
    obtain ⟨c, hc, hsign, hdigit⟩ := f.notWhole
    rw [← heq] at hc
    rcases mem_decimal hc with hc | hc
    · exact hsign hc
    · rw [hc] at hdigit
      cases hdigit
  cases v with
  | int n =>
    cases w with
    | int m => rw [decimal_inj htext]
    | float f => exact absurd htext (hmixed n f)
    | _ => cases hw
  | float f =>
    cases w with
    | int m => exact absurd htext.symm (hmixed m f)
    | float g => rw [FloatText.ext htext]
    | _ => cases hw
  | _ => cases h

theorem decodes_text {v : Value} (h : v.kind = .text) : Decodes v := by
  intro w r r' _ _ heq
  have hw : w.kind = .text := (kind_eq heq).symm.trans h
  obtain ⟨s, hs, hcanonical⟩ : ∃ s, v.dumps = quoteRaw s ∧ v.canonical = text s := by
    cases v with
    | text s => exact ⟨s, rfl, rfl⟩
    | other s => exact ⟨s, rfl, rfl⟩
    | _ => cases h
  obtain ⟨t, ht, hcanonical'⟩ : ∃ t, w.dumps = quoteRaw t ∧ w.canonical = text t := by
    cases w with
    | text t => exact ⟨t, rfl, rfl⟩
    | other t => exact ⟨t, rfl, rfl⟩
    | _ => cases hw
  rw [hs, ht] at heq
  obtain ⟨hst, hrest⟩ := quoteRaw_inj heq
  exact ⟨by rw [hcanonical, hcanonical', hst], hrest⟩

theorem decodes_list {items : List Value} (h : ∀ v ∈ items, Decodes v) :
    Decodes (list items) := by
  intro w r r' _ _ heq
  have hw : w.kind = .list := (kind_eq heq).symm
  cases w with
  | list items' =>
    rw [dumps, dumps, dumpItems_eq_map, dumpItems_eq_map, List.cons_append, List.cons_append,
      List.append_assoc, List.append_assoc] at heq
    obtain ⟨hmap, hrest⟩ := commas_inj (.inl rfl)
      (fun v => (dumps_starts v).imp fun c => Exists.imp fun cs hc => ⟨hc.1, hc.2.2.2.1⟩)
      h (List.cons.inj heq).2
    exact ⟨by rw [canonical, canonical, canonicalItems_eq_map, canonicalItems_eq_map, hmap], hrest⟩
  | _ => cases hw

theorem decodes_entry {e : String × Value} (h : Decodes e.2) (e' : String × Value)
    (r r' : List Char) (hr : Stops r) (hr' : Stops r') (heq : entry e ++ r = entry e' ++ r') :
    (e.1, e.2.canonical) = (e'.1, e'.2.canonical) ∧ r = r' := by
  rw [entry, entry, entryText, entryText, List.append_assoc, List.append_assoc] at heq
  obtain ⟨hkey, hbehind⟩ := quoteRaw_inj heq
  obtain ⟨hvalue, hrest⟩ := h e'.2 r r' hr hr' (List.cons.inj hbehind).2
  exact ⟨Prod.ext hkey hvalue, hrest⟩

theorem decodes_dict {entries : List (String × Value)} (h : ∀ e ∈ entries, Decodes e.2) :
    Decodes (dict entries) := by
  intro w r r' _ _ heq
  have hw : w.kind = .dict := (kind_eq heq).symm
  cases w with
  | dict entries' =>
    rw [dumps_dict, dumps_dict, List.cons_append, List.cons_append, List.append_assoc,
      List.append_assoc] at heq
    obtain ⟨hmap, hrest⟩ := commas_inj (.inr rfl)
      (fun e => ⟨'"', _, rfl, by decide⟩)
      (fun e he => decodes_entry (h e ((perm_sortKeys entries).mem_iff.1 he)))
      (List.cons.inj heq).2
    exact ⟨by rw [canonical_dict, canonical_dict, hmap], hrest⟩
  | _ => cases hw

mutual

/-- **Every value is determined by its text**, up to what the text does not show. -/
theorem decodes : (v : Value) → Decodes v
  | null => decodes_word rfl
  | bool _ => decodes_word rfl
  | int _ => decodes_number rfl
  | float _ => decodes_number rfl
  | text _ => decodes_text rfl
  | other _ => decodes_text rfl
  | list items => decodes_list (decodes_items items)
  | dict entries => decodes_dict (decodes_entries entries)

theorem decodes_items : (items : List Value) → ∀ v ∈ items, Decodes v
  | [] => fun _ h => (nomatch h)
  | v :: items => List.forall_mem_cons.2 ⟨decodes v, decodes_items items⟩

theorem decodes_entries : (entries : List (String × Value)) → ∀ e ∈ entries, Decodes e.2
  | [] => fun _ h => (nomatch h)
  | (_, v) :: entries => List.forall_mem_cons.2 ⟨decodes v, decodes_entries entries⟩

end

mutual

/-- The canonical value has the same text. -/
theorem dumps_canonical : (v : Value) → v.canonical.dumps = v.dumps
  | null => rfl
  | bool _ => rfl
  | int _ => rfl
  | float _ => rfl
  | text _ => rfl
  | other _ => rfl
  | list items => by
    rw [canonical, dumps, dumps, dumpItems_canonical items]
  | dict entries => by
    rw [canonical, dumps, dumps, dumpEntries_eq_map (sortKeys _), ← sortKeys_map,
      ← dumpEntries_eq_map, sortKeys_sortKeys, dumpEntries_canonical entries]

theorem dumpItems_canonical : (items : List Value) →
    dumpItems (canonicalItems items) = dumpItems items
  | [] => rfl
  | v :: items => by
    rw [canonicalItems, dumpItems, dumpItems, dumps_canonical v, dumpItems_canonical items]

theorem dumpEntries_canonical : (entries : List (String × Value)) →
    dumpEntries (canonicalEntries entries) = dumpEntries entries
  | [] => rfl
  | (key, v) :: entries => by
    rw [canonicalEntries, dumpEntries, dumpEntries, dumps_canonical v, dumpEntries_canonical entries]

end

/-- **Two values have the same text exactly when they are the same**, up to what the text does not
show. -/
theorem dumps_eq_iff (v w : Value) : v.dumps = w.dumps ↔ v.canonical = w.canonical := by
  constructor
  · intro h
    exact (decodes v w [] [] (fun _ h => (nomatch h)) (fun _ h => (nomatch h)) (by rw [h])).1
  · intro h
    rw [← dumps_canonical v, h, dumps_canonical w]

end Value

end CompactJson
