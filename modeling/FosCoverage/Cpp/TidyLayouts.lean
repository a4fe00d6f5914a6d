import FosCoverage.Cpp.Statements

/-!
# Headers in tidy layouts

Most code is laid out so that a header and the opening brace of its block stand on one line.  In such
a layout (`Tidy`) every line shows the headers of the blocks around it (`around_visible`).  What it
does not show are the conditions of the ifs before an `else`, and labels.

* `Neutral` tokens close the blocks that they open; statements are neutral (`Body.neutral`).
* `OpenBehind` says that a header and the brace of its block stand among some tokens, and that the
  tokens behind the brace do not close the block.  `Body.openWithin` finds this for the headers around
  a token, along the statements.
* `beside_line` puts the header and the brace on one line, and `mem_visible` does the rest.
-/

set_option autoImplicit false

namespace FosCoverage

open Text CppLexer CppSourceAnalyzer

/-! ## Cutting lists -/

section Cuts

variable {α β : Type}

/-- An element of a list in two parts is in the first part or in the second one. -/
theorem append_eq_append_cons {l l' before behind : List α} {x : α}
    (h : l ++ l' = before ++ x :: behind) :
    (∃ more, l = before ++ x :: more ∧ behind = more ++ l') ∨
      ∃ more, before = l ++ more ∧ l' = more ++ x :: behind := by
  rcases List.append_eq_append_iff.1 h with ⟨more, hbefore, hl'⟩ | ⟨more, hl, hbehind⟩
  · exact .inr ⟨more, hbefore, hl'⟩
  · cases more with
    | nil => exact .inr ⟨[], by rw [hl, List.append_nil, List.append_nil], hbehind.symm⟩
    | cons y more =>
      obtain ⟨rfl, rfl⟩ := List.cons.inj hbehind
      exact .inl ⟨more, hl, rfl⟩

/-- An element of a flattened list is in one of the parts. -/
theorem flatMap_eq_append_cons {f : α → List β} {l : List α} {before behind : List β} {x : β}
    (h : l.flatMap f = before ++ x :: behind) :
    ∃ pre g post a b, l = pre ++ g :: post ∧ f g = a ++ x :: b ∧ before = pre.flatMap f ++ a ∧
      behind = b ++ post.flatMap f := by
  induction l generalizing before with
  | nil => exact absurd h (by simp)
  | cons g l ih =>
    rw [List.flatMap_cons] at h
    rcases append_eq_append_cons h with ⟨b, hg, rfl⟩ | ⟨more, rfl, hl⟩
    · exact ⟨[], g, l, before, b, rfl, hg, rfl, rfl⟩
    · obtain ⟨pre, g', post, a, b, rfl, hg, rfl, rfl⟩ := ih hl
      exact ⟨g :: pre, g', post, a, b, rfl, hg, by rw [List.flatMap_cons, List.append_assoc], rfl⟩

end Cuts

/-! ## Whole headers -/

namespace WholeHeaders

variable {a b : List Placed}

theorem append (ha : WholeHeaders a) (hb : WholeHeaders b) : WholeHeaders (a ++ b) := by
  intro i t h ht hstarts
  rw [List.length_append]
  rcases Nat.lt_or_ge i a.length with hi | hi
  · rw [List.getElem?_append_left hi] at ht
    have := ha i t h ht hstarts
    omega
  · rw [List.getElem?_append_right hi] at ht
    have := hb (i - a.length) t h ht hstarts
    omega

theorem of_append (h : WholeHeaders (a ++ b)) : WholeHeaders b := by
  intro i t hd ht hstarts
  have hi : (a ++ b)[a.length + i]? = some t := by
    rw [List.getElem?_append_right (Nat.le_add_right _ _), Nat.add_sub_cancel_left]
    exact ht
  have := h (a.length + i) t hd hi hstarts
  rw [List.length_append] at this
  omega

theorem flatMap {α : Type} {f : α → List Placed} {l : List α}
    (h : ∀ x ∈ l, WholeHeaders (f x)) : WholeHeaders (l.flatMap f) := by
  induction l with
  | nil => exact fun i t hd ht => absurd ht (by simp)
  | cons x l ih =>
    obtain ⟨hx, hl⟩ := List.forall_mem_cons.1 h
    exact hx.append (ih hl)

theorem cons {t : Placed} (ht : ∀ h ∈ t.starts, h.read.length ≤ a.length + 1)
    (ha : WholeHeaders a) : WholeHeaders (t :: a) := by
  intro i t' h ht' hstarts
  rw [List.length_cons]
  cases i with
  | zero =>
    obtain rfl := Option.some.inj ht'
    have := ht h hstarts
    omega
  | succ i =>
    have := ha i t' h ht' hstarts
    omega

theorem place (around : List Header) (texts : List String) :
    WholeHeaders (place around texts) := by
  intro i t h ht hstarts
  rw [FosCoverage.place, List.getElem?_map] at ht
  obtain ⟨text, -, rfl⟩ := Option.map_eq_some_iff.1 ht
  cases hstarts

end WholeHeaders

/-- The tokens of a header: its word, what else is read of it, and what is not read. -/
theorem header_place_eq {h : Header} (hok : h.Ok) (hread : h.read ≠ []) (around : List Header) :
    ∃ word more others, h.read = word :: more ∧ h.tokens = word :: (more ++ others) ∧
      h.place around = ⟨word, some h, around⟩ :: place around more ++ place around others := by
  obtain ⟨word, more, others, hreadEq, htokens, -⟩ := hok.reads hread
  refine ⟨word, more, others, hreadEq, htokens, ?_⟩
  rw [Header.place, htokens, List.cons_append, ← place_append]

theorem length_header_place (h : Header) (around : List Header) :
    (h.place around).length = h.tokens.length := by
  unfold Header.place
  cases h.tokens with
  | nil => rfl
  | cons t ts => rw [List.length_cons, List.length_cons, place, List.length_map]

theorem wholeHeaders_header {h : Header} (hok : h.Ok) (around : List Header) :
    WholeHeaders (h.place around) := by
  by_cases hread : h.read = []
  · rw [Header.read_eq_nil hread]
    exact .cons (fun h hh => by obtain rfl := Option.some.inj hh; exact Nat.zero_le _)
      (.place around [":"])
  · obtain ⟨word, more, others, hreadEq, -, hplace⟩ := header_place_eq hok hread around
    rw [hplace, List.cons_append, ← place_append]
    refine .cons (fun h' hh => ?_) (.place around _)
    obtain rfl := Option.some.inj hh
    rw [hreadEq, place, List.length_cons, List.length_map, List.length_append]
    omega

/-! ## Neutral tokens -/

/-- No header that starts among the tokens has a brace in it. -/
def Braceless (ts : List Placed) : Prop :=
  ∀ t ∈ ts, ∀ h ∈ t.starts, "\x7b" ∉ h.tokens ∧ "\x7d" ∉ h.tokens

theorem braceless_append {a b : List Placed} : Braceless (a ++ b) ↔ Braceless a ∧ Braceless b :=
  List.forall_mem_append

theorem text_header_place (h : Header) (around : List Header) :
    (h.place around).map Placed.text = h.tokens := by
  unfold Header.place
  cases h.tokens with
  | nil => rfl
  | cons t ts => rw [List.map_cons, text_place]

theorem Braceless.headers {hs around : List Header} (hok : ∀ h ∈ hs, h.Ok)
    (hbraceless : Braceless (hs.flatMap (Header.place around))) :
    ∀ h ∈ hs, "\x7b" ∉ h.tokens ∧ "\x7d" ∉ h.tokens := by
  intro h hh
  obtain ⟨word, rest, htokens, -⟩ := (hok h hh).tokens_eq
  refine hbraceless ⟨word, some h, around⟩ (List.mem_flatMap.2 ⟨h, hh, ?_⟩) h rfl
  rw [Header.place, htokens]
  exact List.mem_cons_self

/-- A token of the headers is no brace. -/
theorem Braceless.text_ne {hs around : List Header} (hok : ∀ h ∈ hs, h.Ok)
    (hbraceless : Braceless (hs.flatMap (Header.place around))) {t : Placed}
    (ht : t ∈ hs.flatMap (Header.place around)) : t.text ≠ "\x7b" := by
  obtain ⟨h, hh, ht⟩ := List.mem_flatMap.1 ht
  have htext : t.text ∈ h.tokens := by
    rw [← text_header_place h around]
    exact List.mem_map_of_mem ht
  intro he
  exact (hbraceless.headers hok h hh).1 (he ▸ htext)

/-- **Tokens that leave the nesting as it was**: their headers are whole, and they close the blocks
that they open. -/
structure Neutral (ts : List Placed) : Prop where
  /-- The headers. -/
  whole : WholeHeaders ts
  /-- The blocks. -/
  excess : ∀ items, Nesting.excess ControlItem.mark (placedItems ts ++ items) =
    Nesting.excess ControlItem.mark items

theorem placedItems_place {around : List Header} {texts : List String} (hopen : "\x7b" ∉ texts)
    (hclose : "\x7d" ∉ texts) : placedItems (place around texts) = [] := by
  induction texts with
  | nil => rfl
  | cons t texts ih =>
    rw [List.mem_cons, not_or] at hopen hclose
    have hrest : placedFrom 0 (place around texts) = [] := ih hopen.2 hclose.2
    rw [place, List.map_cons, placedItems, placedFrom]
    dsimp only
    rw [if_neg (Ne.symm hopen.1), if_neg (Ne.symm hclose.1), List.nil_append]
    exact hrest

/-- The tokens of a block. -/
def blockTokens (around : List Header) (inner : List Placed) : List Placed :=
  place around ["\x7b"] ++ inner ++ place around ["\x7d"]

namespace Neutral

variable {a b : List Placed} {around : List Header}

theorem nil : Neutral [] := ⟨.place [] [], fun _ => rfl⟩

theorem append (ha : Neutral a) (hb : Neutral b) : Neutral (a ++ b) :=
  ⟨ha.whole.append hb.whole, fun items => by
    rw [placedItems_append ha.whole, List.append_assoc, ha.excess, hb.excess]⟩

theorem place {texts : List String} (hopen : "\x7b" ∉ texts) (hclose : "\x7d" ∉ texts) :
    Neutral (place around texts) :=
  ⟨.place around texts, fun items => by rw [placedItems_place hopen hclose, List.nil_append]⟩

theorem header {h : Header} (hok : h.Ok) (hbraceless : "\x7b" ∉ h.tokens ∧ "\x7d" ∉ h.tokens) :
    Neutral (h.place around) := by
  refine ⟨wholeHeaders_header hok around, fun items => ?_⟩
  by_cases hread : h.read = []
  · rw [Header.read_eq_nil hread]
    rfl
  · obtain ⟨word, more, others, hreadEq, htokens, hplace⟩ := header_place_eq hok hread around
    rw [htokens] at hbraceless
    have hothers : placedItems (FosCoverage.place around others) = [] :=
      placedItems_place (fun h => hbraceless.1 (by simp [h])) fun h => hbraceless.2 (by simp [h])
    rw [hplace, placedItems_header rfl (by rw [List.map_cons, text_place, hreadEq]), hothers]
    rfl

theorem headers {hs : List Header} (hok : ∀ h ∈ hs, h.Ok)
    (hbraceless : Braceless (hs.flatMap (Header.place around))) :
    Neutral (hs.flatMap (Header.place around)) := by
  have heach := hbraceless.headers hok
  clear hbraceless
  induction hs with
  | nil => exact nil
  | cons h hs ih =>
    obtain ⟨hh, hhs⟩ := List.forall_mem_cons.1 hok
    obtain ⟨hbraceless, heach⟩ := List.forall_mem_cons.1 heach
    exact append (header hh hbraceless) (ih hhs heach)

/-- A block of neutral tokens. -/
theorem block (ha : Neutral a) (around : List Header) : Neutral (blockTokens around a) := by
  have hopening : WholeHeaders (FosCoverage.place around ["\x7b"] ++ a) :=
    (WholeHeaders.place around _).append ha.whole
  refine ⟨hopening.append (.place around _), fun items => ?_⟩
  have hclose : placedItems (FosCoverage.place around ["\x7d"]) = [.closing] := rfl
  rw [blockTokens, placedItems_append hopening, placedItems_append (.place around _), hclose,
    List.append_assoc, List.append_assoc]
  change Nesting.excess ControlItem.mark (.opening :: (placedItems a ++ .closing :: items)) = _
  rw [Nesting.excess]
  change Nesting.excess ControlItem.mark (placedItems a ++ .closing :: items) - 1 = _
  rw [ha.excess]
  rfl

/-- A beginning of neutral tokens closes no block that it does not open. -/
theorem excess_eq_zero (h : Neutral (a ++ b)) (ha : WholeHeaders a) :
    Nesting.excess ControlItem.mark (placedItems a) = 0 := by
  have hab := h.excess []
  rw [List.append_nil, placedItems_append ha] at hab
  have hle : _ ≤ Nesting.excess ControlItem.mark (placedItems a ++ placedItems b) :=
    Nesting.excess_le_append (placedItems a) (placedItems b)
  rw [hab] at hle
  exact Nat.le_zero.1 hle

end Neutral

theorem Ordinary.not_mem {tokens : List String} (h : ∀ t ∈ tokens, Ordinary t) :
    "\x7b" ∉ tokens ∧ "\x7d" ∉ tokens :=
  ⟨fun ht => (h _ ht).2.1 rfl, fun ht => (h _ ht).2.2 rfl⟩

section Placed

variable {outer chain labels : List Header}

theorem placed_block (lead : List String) (inner rest : Body) :
    (Body.block lead inner rest).placed outer chain labels =
      place (outer ++ labels) lead ++
        (blockTokens (outer ++ labels) (inner.placed (outer ++ labels) [] []) ++
          rest.placed outer [] labels) := by
  simp only [Body.placed, place_append, blockTokens, List.append_assoc]

/-- The conditions before the block of an `else`. -/
def ifsBefore (headers chain : List Header) : List Header :=
  if headers.head? = some .orElse then chain else []

theorem placed_control (headers : List Header) (inner rest : Body) :
    (Body.control headers inner rest).placed outer chain labels =
      headers.flatMap (Header.place (outer ++ labels ++ ifsBefore headers chain)) ++
        (blockTokens (outer ++ labels ++ ifsBefore headers chain ++ headers)
          (inner.placed (outer ++ labels ++ ifsBefore headers chain ++ headers) [] []) ++
          rest.placed outer (ifsBefore headers chain ++ headers.filter Header.isIf) labels) := by
  simp only [Body.placed, ifsBefore, blockTokens, List.append_assoc]

end Placed

/-- **Statements are neutral.** -/
theorem Body.neutral {b : Body} (hok : b.Ok) {outer chain labels : List Header}
    (hbraceless : Braceless (b.placed outer chain labels)) :
    Neutral (b.placed outer chain labels) := by
  induction b generalizing outer chain labels with
  | nil => exact .nil
  | plain tokens rest ih =>
    obtain ⟨htokens, -, hrest⟩ := hok
    obtain ⟨hopen, hclose⟩ := Ordinary.not_mem htokens
    rw [Body.placed, braceless_append] at hbraceless
    exact (Neutral.place hopen hclose).append (ih hrest hbraceless.2)
  | labels ls rest ih =>
    rw [Body.placed, braceless_append] at hbraceless
    exact (Neutral.headers (fun h hh => (hok.1 h hh).2) hbraceless.1).append (ih hok.2 hbraceless.2)
  | block lead inner rest ihInner ihRest =>
    obtain ⟨hlead, hinner, hrest⟩ := hok
    obtain ⟨hopen, hclose⟩ := Ordinary.not_mem hlead
    rw [placed_block, braceless_append, braceless_append, blockTokens, braceless_append,
      braceless_append] at hbraceless
    obtain ⟨-, ⟨⟨-, hin⟩, -⟩, hbehind⟩ := hbraceless
    rw [placed_block]
    exact (Neutral.place hopen hclose).append
      (((ihInner hinner hin).block _).append (ihRest hrest hbehind))
  | control headers inner rest ihInner ihRest =>
    obtain ⟨-, hheaders, hinner, hrest⟩ := hok
    rw [placed_control, braceless_append, braceless_append, blockTokens, braceless_append,
      braceless_append] at hbraceless
    obtain ⟨hhead, ⟨⟨-, hin⟩, -⟩, hbehind⟩ := hbraceless
    rw [placed_control]
    exact (Neutral.headers hheaders hhead).append
      (((ihInner hinner hin).block _).append (ihRest hrest hbehind))

/-! ## Open blocks -/

/-- What stands behind the headers of a block: its brace, and tokens that do not close it. -/
def WithinBlock (ts : List Placed) : Prop :=
  ∀ brace ∈ ts.head?, brace.starts = none ∧ brace.text = "\x7b" ∧
    ∃ behind, Neutral (ts.tail ++ behind)

theorem WithinBlock.nil : WithinBlock [] := fun _ h => absurd h (by simp)

theorem withinBlock {around : List Header} {within behind : List Placed}
    (h : Neutral (within ++ behind)) : WithinBlock (place around ["\x7b"] ++ within) := by
  intro brace hbrace
  obtain rfl := Option.some.inj hbrace
  exact ⟨rfl, rfl, behind, h⟩

/-- **The block of a header is open behind the tokens**, or its brace is next. -/
inductive OpenBehind (h : Header) : List Placed → Prop
  /-- The header is one of the block's. -/
  | intro {before within : List Placed} {hs around : List Header} (hwhole : WholeHeaders before)
    (hmem : h ∈ hs) (hblock : ∀ h' ∈ hs, h'.Ok ∧ h'.isLabel = false) (hwithin : WithinBlock within) :
    OpenBehind h (before ++ (hs.flatMap (Header.place around) ++ within))

theorem OpenBehind.append {h : Header} {a ts : List Placed} (ha : WholeHeaders a)
    (hts : OpenBehind h ts) : OpenBehind h (a ++ ts) := by
  cases hts with
  | intro hwhole hmem hblock hwithin =>
    rw [← List.append_assoc]
    exact .intro (ha.append hwhole) hmem hblock hwithin

/-- The headers of a block are no labels. -/
theorem startBlock_isLabel {headers : List Header} (h : startBlock headers = true) :
    ∀ hd ∈ headers, hd.isLabel = false := by
  unfold startBlock at h
  split at h
  · simp [Header.isLabel]
  · simp [Header.isLabel]
  · simp [Header.isLabel]
  · cases h

theorem around_of_mem_place {around : List Header} {texts : List String} {t : Placed}
    (h : t ∈ place around texts) : t.around = around := by
  obtain ⟨text, -, rfl⟩ := List.mem_map.1 h
  rfl

theorem around_of_mem_header {around : List Header} {h : Header} {t : Placed}
    (ht : t ∈ h.place around) : t.around = around := by
  unfold Header.place at ht
  split at ht
  · cases ht
  · rcases List.mem_cons.1 ht with rfl | ht
    · rfl
    · exact around_of_mem_place ht

theorem around_of_mem_headers {around hs : List Header} {t : Placed}
    (ht : t ∈ hs.flatMap (Header.place around)) : t.around = around := by
  obtain ⟨h, -, ht⟩ := List.mem_flatMap.1 ht
  exact around_of_mem_header ht

theorem place_singleton_eq {around : List Header} {text : String} {before more : List Placed}
    {t : Placed} (h : place around [text] = before ++ t :: more) :
    before = [] ∧ t.around = around := by
  cases before with
  | nil =>
    obtain ⟨rfl, -⟩ := List.cons.inj h
    exact ⟨rfl, rfl⟩
  | cons t' before => exact absurd (List.cons.inj h).2 (by simp)

/-- A token of a block is its brace, stands between the braces, or closes it; or it stands behind the
block. -/
theorem blockTokens_cases {around : List Header} {inner rest before behind : List Placed} {t : Placed}
    (h : blockTokens around inner ++ rest = before ++ t :: behind) :
    (before = [] ∧ t.around = around) ∨
    (∃ within more, before = place around ["\x7b"] ++ within ∧ inner = within ++ t :: more) ∨
    (before = place around ["\x7b"] ++ inner ∧ t.around = around) ∨
    ∃ more, before = blockTokens around inner ++ more ∧ rest = more ++ t :: behind := by
  rcases append_eq_append_cons h with ⟨_, hblock, -⟩ | ⟨more, rfl, hrest⟩
  · rcases append_eq_append_cons hblock with ⟨_, hopen, -⟩ | ⟨more, rfl, hclose⟩
    · rcases append_eq_append_cons hopen with ⟨_, hbrace, -⟩ | ⟨within, rfl, hinner⟩
      · exact .inl (place_singleton_eq hbrace)
      · exact .inr (.inl ⟨within, _, rfl, hinner⟩)
    · obtain ⟨rfl, ht⟩ := place_singleton_eq hclose
      exact .inr (.inr (.inl ⟨List.append_nil _, ht⟩))
  · exact .inr (.inr (.inr ⟨more, rfl, hrest⟩))

/-- The conditions before an `else` are around a block behind an `else` only. -/
theorem mem_ifsBefore {headers chain : List Header} {h : Header}
    (hh : h ∈ ifsBefore headers chain) : h ∈ chain ∧ .orElse ∈ headers := by
  unfold ifsBefore at hh
  split at hh
  · rename_i hhead
    exact ⟨hh, List.mem_of_head? hhead⟩
  · cases hh

/-- No token starts an `else`. -/
def NoElse (ts : List Placed) : Prop := ∀ t ∈ ts, t.starts ≠ some .orElse

theorem noElse_append {a b : List Placed} : NoElse (a ++ b) ↔ NoElse a ∧ NoElse b :=
  List.forall_mem_append

theorem NoElse.not_mem {around headers : List Header}
    (h : NoElse (headers.flatMap (Header.place around))) : .orElse ∉ headers := fun hmem =>
  h ⟨"else", some .orElse, around⟩ (List.mem_flatMap.2 ⟨.orElse, hmem, List.mem_cons_self⟩) rfl

theorem outside_labels {h : Header} (hlabel : h.isLabel = false) {outer labels l : List Header}
    (hlabels : ∀ l ∈ labels, l.isLabel = true) (hl : h ∈ outer ++ labels ++ l) :
    h ∈ outer ∨ h ∈ l := by
  rcases List.mem_append.1 hl with hl | hl
  · rcases List.mem_append.1 hl with hl | hl
    · exact .inl hl
    · rw [hlabels h hl] at hlabel
      cases hlabel
  · exact .inr hl

/-- **The blocks of a header around a token are open before it**, wherever the statements stand; for
the condition of an if only where there is no `else`. -/
def OpenWithin (h : Header) (b : Body) : Prop :=
  ∀ ⦃outer chain labels : List Header⦄, Braceless (b.placed outer chain labels) →
    (h.isIf = true → NoElse (b.placed outer chain labels)) →
    (∀ l ∈ labels, l.isLabel = true) → (∀ c ∈ chain, c.isIf = true) →
    ∀ ⦃before behind : List Placed⦄ ⦃t : Placed⦄,
      b.placed outer chain labels = before ++ t :: behind → h ∈ t.around →
        h ∈ outer ∨ OpenBehind h before

namespace OpenWithin

variable {h : Header} {inner rest : Body}

theorem plain (hlabel : h.isLabel = false) (hrest : OpenWithin h rest) (tokens : List String) :
    OpenWithin h (.plain tokens rest) := by
  intro outer chain labels hbraceless helse hlabels _ before behind t hsplit hh
  rw [Body.placed] at hsplit hbraceless helse
  rcases append_eq_append_cons hsplit with ⟨more, hmore, -⟩ | ⟨more, rfl, hmore⟩
  · have ht := around_of_mem_place (hmore ▸ List.mem_append_right before List.mem_cons_self)
    rw [ht, ← List.append_nil (outer ++ labels)] at hh
    exact .inl ((outside_labels hlabel hlabels hh).resolve_right List.not_mem_nil)
  · exact (hrest (braceless_append.1 hbraceless).2 (fun hif => (noElse_append.1 (helse hif)).2)
      hlabels (List.forall_mem_nil _) hmore hh).imp_right (.append (.place _ _))

theorem labels (hrest : OpenWithin h rest) {ls : List Header}
    (hok : ∀ l ∈ ls, l.isLabel = true ∧ l.Ok) : OpenWithin h (.labels ls rest) := by
  intro outer chain labels hbraceless helse _ _ before behind t hsplit hh
  rw [Body.placed] at hsplit hbraceless helse
  rcases append_eq_append_cons hsplit with ⟨more, hmore, -⟩ | ⟨more, rfl, hmore⟩
  · have ht := around_of_mem_headers (hmore ▸ List.mem_append_right before List.mem_cons_self)
    exact .inl (ht ▸ hh)
  · refine (hrest (braceless_append.1 hbraceless).2 (fun hif => (noElse_append.1 (helse hif)).2)
      (fun l hl => (hok l hl).1) (List.forall_mem_nil _) hmore hh).imp_right (.append ?_)
    exact (Neutral.headers (fun l hl => (hok l hl).2) (braceless_append.1 hbraceless).1).whole

theorem block (hlabel : h.isLabel = false) (hinner : OpenWithin h inner) (hrest : OpenWithin h rest)
    (hok : inner.Ok) (lead : List String) : OpenWithin h (.block lead inner rest) := by
  intro outer chain labels hbraceless helse hlabels _ before behind t hsplit hh
  rw [placed_block, blockTokens] at hbraceless helse
  simp only [braceless_append, noElse_append] at hbraceless helse
  obtain ⟨-, ⟨⟨-, hin⟩, -⟩, hbehind⟩ := hbraceless
  rw [placed_block] at hsplit
  have known : h ∈ outer ++ labels → h ∈ outer := fun hl =>
    (outside_labels (l := []) hlabel hlabels (by rwa [List.append_nil])).resolve_right
      List.not_mem_nil
  rcases append_eq_append_cons hsplit with ⟨_, hlead, -⟩ | ⟨_, rfl, hfound⟩
  · have ht := around_of_mem_place (hlead ▸ List.mem_append_right before List.mem_cons_self)
    exact .inl (known (ht ▸ hh))
  · rcases blockTokens_cases hfound with ⟨-, ht⟩ | ⟨within, _, rfl, hwithin⟩ | ⟨-, ht⟩ |
      ⟨more, rfl, hmore⟩
    · exact .inl (known (ht ▸ hh))
    · refine (hinner hin (fun hif => (helse hif).2.1.1.2) (List.forall_mem_nil _)
        (List.forall_mem_nil _) hwithin hh).imp known fun hopen => ?_
      exact (hopen.append (.place _ _)).append (.place _ _)
    · exact .inl (known (ht ▸ hh))
    · refine (hrest hbehind (fun hif => (helse hif).2.2) hlabels (List.forall_mem_nil _)
        hmore hh).imp_right fun hopen => ?_
      exact (hopen.append ((Body.neutral hok hin).block _).whole).append (.place _ _)

/-- The block of the headers is open before each of its tokens. -/
theorem opened {headers around : List Header} (hblock : startBlock headers = true)
    (hheaders : ∀ h ∈ headers, h.Ok) {within : List Placed} (hwithin : WithinBlock within)
    (hmem : h ∈ headers) :
    OpenBehind h (headers.flatMap (Header.place around) ++ within) := by
  rw [← List.nil_append (_ ++ within)]
  exact .intro (.place [] []) hmem
    (fun h' hh' => ⟨hheaders h' hh', startBlock_isLabel hblock h' hh'⟩) hwithin

theorem control (hlabel : h.isLabel = false) (hinner : OpenWithin h inner)
    (hrest : OpenWithin h rest) (hok : inner.Ok) {headers : List Header}
    (hblock : startBlock headers = true) (hheaders : ∀ h ∈ headers, h.Ok) :
    OpenWithin h (.control headers inner rest) := by
  intro outer chain labels hbraceless helse hlabels hchain before behind t hsplit hh
  rw [placed_control, blockTokens] at hbraceless helse
  simp only [braceless_append, noElse_append] at hbraceless helse
  obtain ⟨hhead, ⟨⟨-, hin⟩, -⟩, hbehind⟩ := hbraceless
  rw [placed_control] at hsplit
  have hwhole := (Neutral.headers hheaders hhead).whole
  have hneutral := Body.neutral hok hin
  have hchain' : h ∉ ifsBefore headers chain := fun hl => by
    obtain ⟨hmem, helseIn⟩ := mem_ifsBefore hl
    exact (helse (hchain h hmem)).1.not_mem helseIn
  have known : ∀ {l}, h ∈ outer ++ labels ++ ifsBefore headers chain ++ l → h ∈ outer ∨ h ∈ l := by
    intro l hl
    rw [List.append_assoc] at hl
    refine (outside_labels hlabel hlabels hl).imp_right fun hl => ?_
    exact (List.mem_append.1 hl).resolve_left hchain'
  rcases append_eq_append_cons hsplit with ⟨_, hhead', -⟩ | ⟨_, rfl, hfound⟩
  · have ht := around_of_mem_headers (hhead' ▸ List.mem_append_right before List.mem_cons_self)
    rw [ht, ← List.append_nil (_ ++ ifsBefore headers chain)] at hh
    exact .inl ((known hh).resolve_right List.not_mem_nil)
  · rcases blockTokens_cases hfound with ⟨rfl, ht⟩ | ⟨within, more, rfl, hwithin⟩ | ⟨rfl, ht⟩ |
      ⟨more, rfl, hmore⟩
    · exact (known (ht ▸ hh)).imp_right (opened hblock hheaders .nil)
    · rcases hinner hin (fun hif => (helse hif).2.1.1.2) (List.forall_mem_nil _)
        (List.forall_mem_nil _) hwithin hh with hmem | hopen
      · rw [hwithin] at hneutral
        exact (known hmem).imp_right (opened hblock hheaders (withinBlock hneutral))
      · exact .inr ((hopen.append (.place _ _)).append hwhole)
    · rw [← List.append_nil (inner.placed _ _ _)] at hneutral
      exact (known (ht ▸ hh)).imp_right (opened hblock hheaders (withinBlock hneutral))
    · refine (hrest hbehind (fun hif => (helse hif).2.2) hlabels ?_ hmore hh).imp_right
        fun hopen => ?_
      · intro c hc
        rcases List.mem_append.1 hc with hc | hc
        · exact hchain c (mem_ifsBefore hc).1
        · exact (List.mem_filter.1 hc).2
      · exact (hopen.append (hneutral.block _).whole).append hwhole

end OpenWithin

/-- **In well-formed statements the blocks of all headers but labels are open before the tokens that
they stand around.** -/
theorem Body.openWithin {h : Header} (hlabel : h.isLabel = false) {b : Body} (hok : b.Ok) :
    OpenWithin h b := by
  induction b with
  | nil =>
    intro _ _ _ _ _ _ _ before behind t hsplit
    have hnil : ([] : List Placed) = before ++ t :: behind := hsplit
    exact absurd hnil (by simp)
  | plain tokens rest ih => exact (ih hok.2.2).plain hlabel tokens
  | labels ls rest ih => exact (ih hok.2).labels hok.1
  | block lead inner rest ihInner ihRest =>
    exact (ihInner hok.2.1).block hlabel (ihRest hok.2.2) hok.2.1 lead
  | control headers inner rest ihInner ihRest =>
    obtain ⟨hblock, hheaders, hinner, hrest⟩ := hok
    exact (ihInner hinner).control hlabel (ihRest hrest) hinner hblock hheaders

/-! ## Layouts -/

/-- **A tidy layout**: headers are not spread over lines, no brace stands in them, and the header of a
block is not the last on its line. -/
structure Tidy (lines : List (List Placed)) : Prop where
  /-- The braces. -/
  braceless : ∀ line ∈ lines, Braceless line
  /-- What is read of a header is on one line. -/
  whole : ∀ line ∈ lines, WholeHeaders line
  /-- Behind a header that is no label stands another token of the line. -/
  beside : ∀ tokens ∈ lines, ∀ (i : Nat) (t : Placed) (h : Header), tokens[i]? = some t →
    t.starts = some h → h.isLabel = false → i + h.tokens.length < tokens.length

section Layouts

variable {file : String × List Char} {lines : List (List Placed)} {n : Nat} {h : Header}

/-- The headers of a block are on one line, and a token behind them. -/
theorem beside_line {tokens : List Placed}
    (hbeside : ∀ (i : Nat) (t : Placed) (h : Header), tokens[i]? = some t → t.starts = some h →
      h.isLabel = false → i + h.tokens.length < tokens.length)
    {hs around : List Header} (hblock : ∀ h ∈ hs, h.Ok ∧ h.isLabel = false)
    {before within more : List Placed}
    (hline : tokens ++ more = before ++ (hs.flatMap (Header.place around) ++ within))
    (hbefore : before.length < tokens.length) :
    (before ++ hs.flatMap (Header.place around)).length < tokens.length := by
  induction hs generalizing before with
  | nil => simpa using hbefore
  | cons h hs ih =>
    obtain ⟨⟨hok, hlabel⟩, hhs⟩ := List.forall_mem_cons.1 hblock
    obtain ⟨word, rest, htokens, -⟩ := hok.tokens_eq
    have hplace : h.place around = ⟨word, some h, around⟩ :: place around rest := by
      rw [Header.place, htokens]
    have hget : tokens[before.length]? = some ⟨word, some h, around⟩ := by
      have hall := congrArg (·[before.length]?) hline
      rw [List.getElem?_append_left hbefore, List.getElem?_append_right (Nat.le_refl _),
        Nat.sub_self, List.flatMap_cons, hplace] at hall
      exact hall
    have hlt := hbeside _ _ h hget rfl hlabel
    rw [List.flatMap_cons, ← List.append_assoc]
    refine ih hhs ?_ ?_
    · rw [hline, List.flatMap_cons, List.append_assoc, List.append_assoc]
    · rw [List.length_append, length_header_place]
      exact hlt

/-- Among the headers of a block one is what is read of it, between whole headers. -/
theorem exists_read {hs around : List Header} (hmem : h ∈ hs)
    (hblock : ∀ h ∈ hs, h.Ok ∧ h.isLabel = false) :
    ∃ a t more b, hs.flatMap (Header.place around) = a ++ (t :: more ++ b) ∧ WholeHeaders a ∧
      WholeHeaders b ∧ t.starts = some h ∧ (t :: more).map Placed.text = h.read := by
  obtain ⟨hs₁, hs₂, rfl⟩ := List.append_of_mem hmem
  obtain ⟨hok, hlabel⟩ := hblock h hmem
  have hread : h.read ≠ [] := fun he => by
    rw [Header.read_eq_nil he] at hlabel
    cases hlabel
  have hwhole : ∀ hs' ⊆ hs₁ ++ h :: hs₂, WholeHeaders (hs'.flatMap (Header.place around)) :=
    fun hs' hsub => .flatMap fun h' hh' => wholeHeaders_header (hblock h' (hsub hh')).1 around
  obtain ⟨word, more, others, hreadEq, -, hplace⟩ := header_place_eq hok hread around
  refine ⟨hs₁.flatMap (Header.place around), ⟨word, some h, around⟩, place around more,
    place around others ++ hs₂.flatMap (Header.place around), ?_, hwhole hs₁ (by simp), ?_, rfl, ?_⟩
  · rw [List.flatMap_append, List.flatMap_cons, hplace, List.append_assoc]
  · exact (WholeHeaders.place _ _).append (hwhole hs₂ fun x hx => by simp [hx])
  · rw [List.map_cons, text_place, hreadEq]

/-- A header on the line is shown. -/
theorem mem_visible_own {pre post : List (List Nat × List ControlItem)} {ns : List Nat}
    {items : List ControlItem} {text : String}
    (hlayout : layoutItems file lines = pre ++ (ns, items) :: post) (hpre : ∀ g ∈ pre, n ∉ g.1)
    (hn : n ∈ ns) (hmem : .header text ∈ items) : text ∈ visible file lines n := by
  rw [visible, hlayout, shownFrom_append hpre, shownFrom, if_pos hn, mem_addNew]
  exact .inr (List.mem_filterMap.2 ⟨_, hmem, rfl⟩)

/-- The headers of a block stand on the line `last`, or all on a line before it, together with the
brace. -/
theorem header_line {pre : List (List Nat × List Placed)} {last : List Placed}
    (htidy : ∀ g ∈ pre, ∀ (i : Nat) (t : Placed) (h : Header), g.2[i]? = some t →
      t.starts = some h → h.isLabel = false → i + h.tokens.length < g.2.length)
    {hs around : List Header} (hmem : h ∈ hs) (hblock : ∀ h ∈ hs, h.Ok ∧ h.isLabel = false)
    {before within : List Placed}
    (hX : pre.flatMap Prod.snd ++ last = before ++ (hs.flatMap (Header.place around) ++ within)) :
    (∃ a, before = pre.flatMap Prod.snd ++ a ∧
      last = a ++ (hs.flatMap (Header.place around) ++ within)) ∨
    ∃ pre₁ g mid a brace c, pre = pre₁ ++ g :: mid ∧ before = pre₁.flatMap Prod.snd ++ a ∧
      g.2 = a ++ (hs.flatMap (Header.place around) ++ brace :: c) ∧
      within = brace :: (c ++ (mid.flatMap Prod.snd ++ last)) := by
  obtain ⟨t₀, more₀, hfirst⟩ :
      ∃ t₀ more₀, hs.flatMap (Header.place around) ++ within = t₀ :: more₀ := by
    obtain ⟨h₀, hs₀, rfl⟩ := List.exists_cons_of_ne_nil (List.ne_nil_of_mem hmem)
    obtain ⟨word, rest, htokens, -⟩ := (hblock h₀ List.mem_cons_self).1.tokens_eq
    rw [List.flatMap_cons, Header.place, htokens]
    exact ⟨_, _, rfl⟩
  rw [hfirst] at hX
  rcases append_eq_append_cons hX with ⟨more, hpre, hmore⟩ | ⟨a, rfl, hlast⟩
  · right
    obtain ⟨pre₁, g, mid, a, b, rfl, hg, rfl, rfl⟩ := flatMap_eq_append_cons hpre
    have hline : g.2 ++ (mid.flatMap Prod.snd ++ last) =
        a ++ (hs.flatMap (Header.place around) ++ within) := by
      rw [hfirst, hmore, hg]
      simp
    have hlt := beside_line (htidy g (by simp)) hblock hline (by rw [hg]; simp)
    rw [← List.append_assoc a] at hline
    rcases List.append_eq_append_iff.1 hline with ⟨c, hc, -⟩ | ⟨c, hc, rfl⟩
    · rw [hc, List.length_append] at hlt
      omega
    · cases c with
      | nil =>
        rw [hc, List.append_nil] at hlt
        omega
      | cons brace c =>
        exact ⟨pre₁, g, mid, a, brace, c, rfl, rfl, by rw [hc, List.append_assoc], rfl⟩
  · exact .inl ⟨a, rfl, by rw [hfirst]; exact hlast⟩

theorem placedItems_flatMap {ls : List (List Nat × List Placed)}
    (h : ∀ g ∈ ls, WholeHeaders g.2) : placedItems (ls.flatMap Prod.snd) =
      (ls.map (Prod.map id placedItems)).flatMap Prod.snd := by
  induction ls with
  | nil => rfl
  | cons g ls ih =>
    obtain ⟨hg, hls⟩ := List.forall_mem_cons.1 h
    rw [List.flatMap_cons, placedItems_append hg, ih hls]
    rfl

/-- The line of a token, the ones before it, and the others. -/
theorem tokensAt_spec (hlength : ((logicalGroups file.2).map LineGroup.lines).length = lines.length)
    {t : Placed} (ht : t ∈ tokensAt file lines n) :
    ∃ (pre post : List (List Nat × List Placed)) (ns : List Nat) (x y : List Placed),
      lines = pre.map Prod.snd ++ (x ++ t :: y) :: post.map Prod.snd ∧
      layoutItems file lines = pre.map (Prod.map id placedItems) ++
        (ns, placedItems (x ++ t :: y)) :: post.map (Prod.map id placedItems) ∧
      (∀ g ∈ pre, n ∉ g.1) ∧ n ∈ ns := by
  unfold tokensAt at ht
  cases hfind : (((logicalGroups file.2).map LineGroup.lines).zip lines).find?
      fun line => n ∈ line.1 with
  | none =>
    rw [hfind] at ht
    cases ht
  | some g =>
    rw [hfind] at ht
    obtain ⟨hn, pre, post, hzip, hpre⟩ := List.find?_eq_some_iff_append.1 hfind
    obtain ⟨x, y, hxy⟩ := List.append_of_mem (show t ∈ g.2 from ht)
    refine ⟨pre, post, g.1, x, y, ?_, ?_, fun g hg hmem => ?_, of_decide_eq_true hn⟩
    · rw [← List.map_snd_zip (Nat.le_of_eq hlength.symm), hzip, List.map_append, List.map_cons, hxy]
    · rw [layoutItems, List.zip_map_right, hzip, List.map_append, List.map_cons, ← hxy]
      rfl
    · have := hpre g hg
      simp [hmem] at this

/-- A header is shown behind its line, when the brace of its block is on that line and what is between
does not close the block. -/
theorem mem_visible_behind (htidy : Tidy lines) {hs around : List Header} (hmem : h ∈ hs)
    (hblock : ∀ h ∈ hs, h.Ok ∧ h.isLabel = false) {pre mid post : List (List Nat × List Placed)}
    {g : List Nat × List Placed} {ns : List Nat} {items : List ControlItem}
    (hlayout : layoutItems file lines = (pre ++ g :: mid).map (Prod.map id placedItems) ++
      (ns, items) :: post.map (Prod.map id placedItems))
    (hin : ∀ g' ∈ pre ++ g :: mid, g'.2 ∈ lines) (hnot : ∀ g' ∈ pre ++ g :: mid, n ∉ g'.1)
    (hn : n ∈ ns) {before c last : List Placed} {brace : Placed} (hbefore : WholeHeaders before)
    (hg : g.2 = before ++ (hs.flatMap (Header.place around) ++ brace :: c))
    (hwithin : WithinBlock (brace :: (c ++ (mid.flatMap Prod.snd ++ last)))) :
    join h.read ∈ visible file lines n := by
  obtain ⟨hnone, htext, behind, hneutral⟩ := hwithin brace rfl
  obtain ⟨a, t, more, b, hread, ha, hb, hstarts, htexts⟩ := exists_read hmem hblock
  have hgin := hin g (by simp)
  have hline : g.2 = (before ++ a) ++ (t :: more ++ (b ++ brace :: c)) := by
    rw [hg, hread]
    simp
  have hlayout' : layoutItems file lines = pre.map (Prod.map id placedItems) ++
      (g.1, placedItems ((before ++ a) ++ (t :: more ++ (b ++ brace :: c)))) ::
        mid.map (Prod.map id placedItems) ++ (ns, items) :: post.map (Prod.map id placedItems) := by
    rw [hlayout, ← hline, List.map_append, List.map_cons]
    rfl
  have hmid : ∀ g ∈ mid, WholeHeaders g.2 := fun g hg => htidy.whole g.2 (hin g (by simp [hg]))
  have hc : WholeHeaders c := by
    have hline := htidy.whole g.2 hgin
    rw [hg, ← List.append_assoc, ← List.singleton_append, ← List.append_assoc] at hline
    exact hline.of_append
  have hbraces : ∀ t ∈ b, t.text ≠ "\x7b" := by
    have hheaders := htidy.braceless g.2 hgin
    rw [hg, braceless_append, braceless_append] at hheaders
    refine fun t ht => hheaders.2.1.text_ne (fun h' hh' => (hblock h' hh').1) ?_
    rw [hread]
    simp [ht]
  have hexcess : Nesting.excess ControlItem.mark (placedItems c ++
      (mid.map (Prod.map id placedItems)).flatMap Prod.snd) = 0 := by
    have hrest : Neutral ((c ++ mid.flatMap Prod.snd) ++ (last ++ behind)) := by
      simpa using hneutral
    rw [← placedItems_flatMap hmid, ← placedItems_append hc]
    exact hrest.excess_eq_zero (hc.append (.flatMap hmid))
  have hnot' : ∀ ls ⊆ pre ++ g :: mid, ∀ g ∈ ls.map (Prod.map id placedItems), n ∉ g.1 := by
    intro ls hsub g hg
    obtain ⟨g, hg', rfl⟩ := List.mem_map.1 hg
    exact hnot g (hsub hg')
  exact mem_visible hstarts htexts (hbefore.append ha) hb hbraces ⟨hnone, htext⟩ hlayout'
    (hnot' pre (by simp)) (hnot g (by simp)) (hnot' mid fun g hg => by simp [hg]) hn hexcess

/-- **In a tidy layout a line shows the headers of the blocks around it**: of the headers around any
token of the line all but labels, and the conditions of ifs where the file has an `else`. -/
theorem around_visible (hlaid : LaidOut file lines) (htidy : Tidy lines)
    {t : Placed} (ht : t ∈ tokensAt file lines n) (hh : h ∈ t.around) (hlabel : h.isLabel = false)
    (helse : h.isIf = true → ∀ line ∈ lines, NoElse line) : join h.read ∈ visible file lines n := by
  obtain ⟨body, hok, hflat⟩ := hlaid.body
  have hlength : ((logicalGroups file.2).map LineGroup.lines).length = lines.length := by
    have := congrArg List.length hlaid.tokens
    simpa using this
  obtain ⟨pre, post, ns, x, y, hlines, hlayout, hpre, hn⟩ := tokensAt_spec hlength ht
  have hsplit : body.placed [] [] [] =
      (pre.flatMap Prod.snd ++ x) ++ t :: (y ++ post.flatMap Prod.snd) := by
    rw [← hflat, hlines]
    simp [List.flatMap_def]
  have hbraceless : Braceless (body.placed [] [] []) := by
    rw [← hflat]
    intro t ht
    obtain ⟨line, hline, ht⟩ := List.mem_flatten.1 ht
    exact htidy.braceless line hline t ht
  have hnoelse : h.isIf = true → NoElse (body.placed [] [] []) := by
    intro hif t ht
    rw [← hflat] at ht
    obtain ⟨line, hline, ht⟩ := List.mem_flatten.1 ht
    exact helse hif line hline t ht
  have hopen := (Body.openWithin hlabel hok hbraceless hnoelse (List.forall_mem_nil _)
    (List.forall_mem_nil _) hsplit hh).resolve_left List.not_mem_nil
  generalize hX : pre.flatMap Prod.snd ++ x = X at hopen
  cases hopen with
  | @intro before within hs around hwhole hmem hblock hwithin =>
    have hin : ∀ g ∈ pre, g.2 ∈ lines := fun g hg => by
      rw [hlines]
      exact List.mem_append_left _ (List.mem_map_of_mem hg)
    rcases header_line (fun g hg => htidy.beside g.2 (hin g hg)) hmem hblock hX with
      ⟨a, rfl, rfl⟩ | ⟨pre₁, g, mid, a, brace, c, rfl, rfl, hg, rfl⟩
    · -- the header is on the line of the token
      obtain ⟨a₁, t₁, more, b, hread, ha₁, -, hstarts, htexts⟩ := exists_read hmem hblock
      have ha : WholeHeaders (a ++ a₁) := hwhole.of_append.append ha₁
      refine mem_visible_own hlayout (fun g hg => ?_) hn ?_
      · obtain ⟨g, hg', rfl⟩ := List.mem_map.1 hg
        exact hpre g hg'
      · rw [hread, show a ++ (a₁ ++ (t₁ :: more ++ b) ++ within) ++ t :: y =
          (a ++ a₁) ++ (t₁ :: more ++ (b ++ within ++ t :: y)) by simp, placedItems_append ha,
          placedItems_header hstarts htexts]
        exact List.mem_append_right _ List.mem_cons_self
    · -- it is on a line before, and so is the brace
      exact mem_visible_behind htidy hmem hblock hlayout hin hpre hn hwhole.of_append hg hwithin

end Layouts

namespace Sample

theorem tidy_linesBeside : Tidy (linesBeside "a") := by
  have hall : ∀ line ∈ linesBeside "a", ∀ p ∈ line.zipIdx, ∀ h ∈ p.1.starts,
      ("\x7b" ∉ h.tokens ∧ "\x7d" ∉ h.tokens) ∧ p.2 + h.read.length ≤ line.length ∧
        (h.isLabel = false → p.2 + h.tokens.length < line.length) := by
    decide +kernel
  refine ⟨fun line hline t ht h hh => ?_, fun line hline i t h ht hh => ?_,
    fun line hline i t h ht hh hlabel => ?_⟩
  · obtain ⟨i, hi⟩ := List.mem_iff_getElem?.1 ht
    exact (hall line hline (t, i) (List.mem_zipIdx_iff_getElem?.2 hi) h hh).1
  · exact (hall line hline (t, i) (List.mem_zipIdx_iff_getElem?.2 ht) h hh).2.1
  · exact (hall line hline (t, i) (List.mem_zipIdx_iff_getElem?.2 ht) h hh).2.2 hlabel

/-- The condition is shown in the block. -/
theorem condition_visible : "if ( a )" ∈ visible (braceBeside "a") (linesBeside "a") 3 := by
  have hline : tokensAt (braceBeside "a") (linesBeside "a") 3 =
      FosCoverage.place [.test "if" [] ["a"]] ["x", "(", ")", ";"] := by decide +kernel
  have hshown := around_visible (t := ⟨"x", none, [.test "if" [] ["a"]]⟩)
    (h := .test "if" [] ["a"]) laidOut_braceBeside.1 tidy_linesBeside
    (by rw [hline]; exact List.mem_cons_self) List.mem_cons_self rfl fun _ => by
      unfold NoElse
      decide +kernel
  exact hshown

end Sample

end FosCoverage
