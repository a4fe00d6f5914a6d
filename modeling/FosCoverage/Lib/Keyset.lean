import Mathlib.Order.WithBot
import FosCoverage.Lib.Paging

/-!
# Pages with a continuation token

A server that answers a request with a page and a token for the next one, and a client that asks
until there is no token.  Every page may have a limit of its own.

* `Walk` is the client: the pages of one walk, in order.  A server answers, so there is at most one
  walk (`Walk.unique`); where what is left gets shorter there is one (`Walk.exists_of_step`).
* `cut` is what the server makes of the rows it fetched with one more than the limit: whether there
  are more, and the key the next page starts behind.
* `Serves` says that a server pages through some rows in the order of a key, with tokens that stand
  for keys.  When no two rows share a key, **the walk has every row once, in order, whatever the
  limits** (`Serves.exists_walk`).
* Pages of one row never have a key twice (`Serves.keys_ascend`), so that rows that share a key are
  lost there.
* A server that answers nothing else sends its clients on the same walk (`Serves.walk_of_answers`),
  also one whose rows change from request to request.
-/

set_option autoImplicit false

namespace Keyset

universe u v w

variable {α β : Type u} {κ : Type v} {τ ε : Type w}

/-! ## The client -/

section Client

variable (serve : Nat → Option τ → Except ε (List β × Option τ))

/-- The pages a client gets who starts with a token and goes on until it gets none.  The number
counts the requests. -/
inductive Walk : Nat → Option τ → List (List β) → Prop
  /-- The last page. -/
  | last {i : Nat} {token : Option τ} {page : List β} (h : serve i token = .ok (page, none)) :
      Walk i token [page]
  /-- A page and those behind it. -/
  | next {i : Nat} {token : Option τ} {page : List β} {t : τ} {pages : List (List β)}
      (h : serve i token = .ok (page, some t)) (rest : Walk (i + 1) (some t) pages) :
      Walk i token (page :: pages)

variable {serve}

/-- The server decides. -/
theorem Walk.unique {i : Nat} {token : Option τ} {pages pages' : List (List β)}
    (h : Walk serve i token pages) (h' : Walk serve i token pages') : pages = pages' := by
  induction h generalizing pages' with
  | last h =>
    cases h' with
    | last h₁ => rw [(Prod.mk.inj (Except.ok.inj (h.symm.trans h₁))).1]
    | next h₁ _ => exact absurd (Prod.mk.inj (Except.ok.inj (h.symm.trans h₁))).2 (by simp)
  | next h _ ih =>
    cases h' with
    | last h₁ => exact absurd (Prod.mk.inj (Except.ok.inj (h.symm.trans h₁))).2 (by simp)
    | next h₁ rest =>
      obtain ⟨rfl, ht⟩ := Prod.mk.inj (Except.ok.inj (h.symm.trans h₁))
      obtain rfl := Option.some.inj ht
      rw [ih rest]

/-- **A walk ends** where every page takes something off what is left. -/
theorem Walk.exists_of_step {left : Option τ → List β → Prop}
    (step : ∀ i token rows, left token rows → ∃ page, serve i token = .ok (page, none) ∧ rows = page
      ∨ ∃ t rest, serve i token = .ok (page, some t) ∧ rows = page ++ rest ∧ page ≠ [] ∧
        left (some t) rest) {token : Option τ} {rows : List β} (h : left token rows) (i : Nat) :
    ∃ pages, Walk serve i token pages ∧ pages.flatten = rows := by
  induction hn : rows.length using Nat.strong_induction_on generalizing rows token i with
  | _ n ih =>
    subst hn
    obtain ⟨page, ⟨hserve, rfl⟩ | ⟨t, rest, hserve, rfl, hne, hleft⟩⟩ := step i token rows h
    · exact ⟨[rows], .last hserve, by simp⟩
    · have hpos := List.length_pos_iff.2 hne
      obtain ⟨pages, hwalk, hrest⟩ := ih rest.length (by rw [List.length_append]; omega) hleft (i + 1)
        rfl
      exact ⟨page :: pages, .next hserve hwalk, by rw [List.flatten_cons, hrest]⟩

/-- A client that gets pages got an answer to its first request. -/
theorem Walk.answered {i : Nat} {token : Option τ} {pages : List (List β)}
    (h : Walk serve i token pages) : ∃ a, serve i token = .ok a := by
  cases h with
  | last h => exact ⟨_, h⟩
  | next h _ => exact ⟨_, h⟩

theorem Walk.congr {serve' : Nat → Option τ → Except ε (List β × Option τ)} {i : Nat}
    {token : Option τ} {pages : List (List β)} (h : Walk serve i token pages)
    (heq : ∀ i token, serve i token = serve' i token) : Walk serve' i token pages := by
  rwa [← funext fun i => funext (heq i)]

/-- A walk is one through every server that answers its requests in the same way. -/
theorem Walk.imp {ε' : Type w} {serve' : Nat → Option τ → Except ε' (List β × Option τ)}
    {asked : Nat → Option τ → Prop}
    (step : ∀ i token a, asked i token → serve i token = .ok a →
      serve' i token = .ok a ∧ ∀ t, a.2 = some t → asked (i + 1) (some t))
    {i : Nat} {token : Option τ} {pages : List (List β)} (h : Walk serve i token pages)
    (hasked : asked i token) : Walk serve' i token pages := by
  induction h with
  | last h => exact .last (step _ _ _ hasked h).1
  | next h _ ih =>
    obtain ⟨hserve, hnext⟩ := step _ _ _ hasked h
    exact .next hserve (ih (hnext _ rfl))

end Client

/-! ## The server -/

variable [LinearOrder κ]

/-- A page, whether there are more rows, and the key the next page starts behind. -/
structure Page (α : Type u) (κ : Type v) where
  /-- `rows` -/
  rows : List α
  /-- `has_more` -/
  hasMore : Bool
  /-- The key of the last row, if there are more. -/
  next : Option κ

/-- What becomes of the rows that were fetched, one more than the limit. -/
def cut (key : α → κ) (limit : Nat) (fetched : List α) : Page α κ where
  rows := fetched.take limit
  hasMore := limit < fetched.length
  next := if limit < fetched.length then (fetched.take limit).getLast?.map key else none

/-- The key of a row behind the place in front of all rows. -/
def above (key : α → κ) (r : α) : WithBot κ := key r

/-- The rows behind a place, in order. -/
def rest (key : α → κ) (rows : List α) (last : WithBot κ) : List α :=
  (Paging.behind (above key) rows last).insertionSort fun a b => key a ≤ key b

/-- The page behind a place. -/
def pageAt (key : α → κ) (limit : Nat) (rows : List α) (last : WithBot κ) : Page α κ :=
  cut key limit ((rest key rows last).take (limit + 1))

variable {key : α → κ} {limit : Nat} {rows : List α} {last : WithBot κ}

theorem perm_rest (key : α → κ) (rows : List α) (last : WithBot κ) :
    (rest key rows last).Perm (Paging.behind (above key) rows last) :=
  List.perm_insertionSort _ _

theorem mem_rest {r : α} : r ∈ rest key rows last ↔ r ∈ rows ∧ last < above key r := by
  rw [(perm_rest key rows last).mem_iff, Paging.mem_behind]

/-- The rows in front of which nothing was fetched are all rows. -/
theorem rest_bot : rest key rows ⊥ = rows.insertionSort fun a b => key a ≤ key b := by
  have hall : Paging.behind (above key) rows (⊥ : WithBot κ) = rows :=
    List.filter_eq_self.2 fun r _ => decide_eq_true (WithBot.bot_lt_coe (key r))
  rw [rest, hall]

theorem pairwise_le_rest : (rest key rows last).Pairwise fun a b => key a ≤ key b :=
  List.pairwise_insertionSort _ _

/-- The keys ascend when no two rows share one. -/
theorem pairwise_rest (hn : (rows.map key).Nodup) :
    (rest key rows last).Pairwise fun a b => key a < key b := by
  have hnodup : ((rest key rows last).map key).Nodup :=
    ((perm_rest key rows last).map key).nodup_iff.2 (hn.sublist (List.filter_sublist.map key))
  exact (pairwise_le_rest.and (List.pairwise_map.1 hnodup)).imp
    fun hab => lt_of_le_of_ne hab.1 hab.2

/-- What is left behind a row is what stands behind it in the order. -/
theorem rest_eq_of_append (hn : (rows.map key).Nodup) {front back : List α} {r : α}
    (h : rest key rows last = front ++ r :: back) : rest key rows (key r) = back := by
  have hsorted : (front ++ r :: back).Pairwise fun a b => key a < key b := h ▸ pairwise_rest hn
  rw [List.pairwise_append, List.pairwise_cons] at hsorted
  obtain ⟨_, ⟨hback, hsort⟩, hfront⟩ := hsorted
  have hmem : ∀ a, a ∈ rest key rows (key r) ↔ a ∈ back := by
    intro a
    have hr : last < above key r := (mem_rest.1 (h ▸ List.mem_append_right _ List.mem_cons_self)).2
    constructor
    · intro ha
      obtain ⟨hrow, hlt⟩ := mem_rest.1 ha
      have hlt' : key r < key a := WithBot.coe_lt_coe.1 hlt
      have hin : a ∈ front ++ r :: back := h ▸ mem_rest.2 ⟨hrow, hr.trans hlt⟩
      rcases List.mem_append.1 hin with hf | hb
      · exact absurd (hfront a hf r List.mem_cons_self) (not_lt.2 hlt'.le)
      · rcases List.mem_cons.1 hb with rfl | hb
        · exact absurd hlt' (lt_irrefl _)
        · exact hb
    · intro ha
      have hin : a ∈ rest key rows last :=
        h ▸ List.mem_append_right _ (List.mem_cons_of_mem _ ha)
      exact mem_rest.2 ⟨(mem_rest.1 hin).1, WithBot.coe_lt_coe.2 (hback a ha)⟩
  have hrest : (rest key rows (key r)).Pairwise fun a b => key a < key b := pairwise_rest hn
  have hne : ∀ {l : List α}, l.Pairwise (fun a b => key a < key b) → l.Nodup :=
    fun hl => hl.imp fun hab => fun he => lt_irrefl _ (he ▸ hab)
  exact ((List.perm_ext_iff_of_nodup (hne hrest) (hne hsort)).2 hmem).eq_of_pairwise
    (fun a b _ _ hab hba => absurd (hab.trans hba) (lt_irrefl _)) hrest hsort

/-- **A page takes its rows off the front of what is left**, and its key is where the rest
begins. -/
theorem pageAt_cases (hn : (rows.map key).Nodup) (hlimit : 0 < limit) :
    ((pageAt key limit rows last).next = none ∧
      (pageAt key limit rows last).rows = rest key rows last) ∨
    ∃ k, (pageAt key limit rows last).next = some k ∧ (pageAt key limit rows last).rows ≠ [] ∧
      rest key rows last = (pageAt key limit rows last).rows ++ rest key rows k := by
  obtain ⟨l, hl⟩ : ∃ l, l = rest key rows last := ⟨_, rfl⟩
  simp only [pageAt, cut, ← hl, List.length_take, List.take_take,
    Nat.min_eq_left (Nat.le_succ limit)]
  by_cases hmore : limit < l.length
  · right
    obtain ⟨front, r, hfront⟩ : ∃ front r, l.take limit = front ++ [r] := by
      have hne : l.take limit ≠ [] := by
        rw [← List.length_pos_iff, List.length_take]
        omega
      exact ⟨_, _, (List.dropLast_append_getLast hne).symm⟩
    have hsplit : l = front ++ r :: l.drop limit := by
      conv_lhs => rw [← List.take_append_drop limit l, hfront]
      rw [List.append_assoc]
      rfl
    refine ⟨key r, ?_, ?_, ?_⟩
    · rw [if_pos (by omega), hfront, List.getLast?_append, List.getLast?_singleton]
      rfl
    · rw [hfront]
      simp
    · rw [rest_eq_of_append hn (hl.symm.trans hsplit), List.take_append_drop]
  · left
    rw [if_neg (by omega), List.take_of_length_le (by omega)]
    exact ⟨rfl, rfl⟩

/-- A page of one row. -/
theorem pageAt_one : (pageAt key 1 rows last).rows = (rest key rows last).take 1 ∧
    ∀ k, (pageAt key 1 rows last).next = some k → ∃ r, (rest key rows last).take 1 = [r] ∧
      key r = k := by
  simp only [pageAt, cut, List.take_take]
  refine ⟨rfl, fun k hk => ?_⟩
  cases hl : rest key rows last with
  | nil => simp [hl] at hk
  | cons r l =>
    rw [hl] at hk
    refine ⟨r, rfl, ?_⟩
    split at hk
    · simpa using hk
    · cases hk

/-! ## Walks -/

/-- The server pages through the rows in the order of the key; `shown` is what it shows of a row,
and `token` what stands for a key. -/
structure Serves (serve : Nat → Option τ → Except ε (List β × Option τ)) (key : α → κ)
    (rows : List α) (shown : α → β) (token : κ → τ) (limits : Nat → Nat) : Prop where
  /-- The first page. -/
  first : ∀ i, serve i none = .ok ((pageAt key (limits i) rows ⊥).rows.map shown,
    (pageAt key (limits i) rows ⊥).next.map token)
  /-- The page behind a key. -/
  next : ∀ i (k : κ), serve i (some (token k)) =
    .ok ((pageAt key (limits i) rows k).rows.map shown,
      (pageAt key (limits i) rows k).next.map token)

namespace Serves

variable {serve : Nat → Option τ → Except ε (List β × Option τ)} {shown : α → β} {token : κ → τ}
  {limits : Nat → Nat}

/-- The token of a place. -/
def At (token : κ → τ) (t : Option τ) (last : WithBot κ) : Prop :=
  (t = none ∧ last = ⊥) ∨ ∃ k : κ, t = some (token k) ∧ last = k

theorem page_eq (h : Serves serve key rows shown token limits) {t : Option τ} (hat : At token t last)
    (i : Nat) : serve i t = .ok ((pageAt key (limits i) rows last).rows.map shown,
      (pageAt key (limits i) rows last).next.map token) := by
  rcases hat with ⟨rfl, rfl⟩ | ⟨k, rfl, rfl⟩
  · exact h.first i
  · exact h.next i k

/-- **The walk has every row once, in order, whatever the limits.** -/
theorem exists_walk (h : Serves serve key rows shown token limits) (hn : (rows.map key).Nodup)
    (hlimits : ∀ i, 0 < limits i) : ∃ pages, Walk serve 0 none pages ∧
      pages.flatten = (rows.insertionSort fun a b => key a ≤ key b).map shown := by
  let left : Option τ → List β → Prop := fun t l => ∃ last, At token t last ∧
    l = (rest key rows last).map shown
  have hleft : left none ((rest key rows ⊥).map shown) := ⟨⊥, .inl ⟨rfl, rfl⟩, rfl⟩
  rw [← rest_bot]
  refine Walk.exists_of_step ?_ hleft 0
  rintro i t _ ⟨last, hat, rfl⟩
  have hpage := h.page_eq hat i
  have hcases := @pageAt_cases _ _ _ key (limits i) rows last hn (hlimits i)
  rcases hcases with ⟨hnext, hrows⟩ | ⟨k, hnext, hne, hrows⟩
  · rw [hnext, hrows] at hpage
    exact ⟨_, .inl ⟨hpage, rfl⟩⟩
  · rw [hnext] at hpage
    refine ⟨_, .inr ⟨token k, (rest key rows k).map shown, hpage, ?_, ?_, k, .inr ⟨k, rfl, rfl⟩, rfl⟩⟩
    · rw [← List.map_append, ← hrows]
    · simpa using hne

/-- **Pages of one row show rows whose keys ascend.** -/
theorem keys_ascend (h : Serves serve key rows shown token limits) (hlimits : ∀ i, limits i = 1)
    {i : Nat} {t : Option τ} {last : WithBot κ} (hat : At token t last) {pages : List (List β)}
    (hw : Walk serve i t pages) : ∃ l : List α, pages.flatten = l.map shown ∧
      (l.map key).Pairwise (· < ·) ∧ ∀ r ∈ l, r ∈ rows ∧ last < above key r := by
  induction hw generalizing last with
  | @last i t page hserve =>
    rw [h.page_eq hat, hlimits, pageAt_one.1] at hserve
    have hpage := (Prod.mk.inj (Except.ok.inj hserve)).1
    refine ⟨(rest key rows last).take 1, by rw [List.flatten_singleton, hpage], ?_, fun r hr => ?_⟩
    · cases rest key rows last with
      | nil => exact List.Pairwise.nil
      | cons r l => exact List.pairwise_singleton _ _
    · exact mem_rest.1 (List.mem_of_mem_take hr)
  | @next i t page t' pages hserve hrest ih =>
    rw [h.page_eq hat, hlimits, pageAt_one.1] at hserve
    obtain ⟨hpage, hnext⟩ := Prod.mk.inj (Except.ok.inj hserve)
    obtain ⟨k, hk, rfl⟩ := Option.map_eq_some_iff.1 hnext
    obtain ⟨r, hr, rfl⟩ := pageAt_one.2 k hk
    obtain ⟨l, hflat, hsort, hmem⟩ := ih (.inr ⟨key r, rfl, rfl⟩)
    have hlast := mem_rest.1 (List.mem_of_mem_take (hr ▸ List.mem_singleton_self r))
    refine ⟨r :: l, ?_, ?_, fun a ha => ?_⟩
    · rw [List.flatten_cons, hflat, ← hpage, hr]
      rfl
    · rw [List.map_cons, List.pairwise_cons]
      refine ⟨fun k hk => ?_, hsort⟩
      obtain ⟨a, ha, rfl⟩ := List.mem_map.1 hk
      exact WithBot.coe_lt_coe.1 (hmem a ha).2
    · rcases List.mem_cons.1 ha with rfl | ha
      · exact hlast
      · exact ⟨(hmem a ha).1, hlast.2.trans (hmem a ha).2⟩

/-- Rows that share a key are not all seen in pages of one row. -/
theorem not_exists_walk (h : Serves serve key rows shown token limits)
    (hlimits : ∀ i, limits i = 1) (hn : ¬ (rows.map key).Nodup) :
    ¬ ∃ pages, Walk serve 0 none pages ∧
      pages.flatten = (rows.insertionSort fun a b => key a ≤ key b).map shown := by
  rintro ⟨pages, hw, hflat⟩
  obtain ⟨l, hl, hsort, hmem⟩ := h.keys_ascend hlimits (.inl ⟨rfl, rfl⟩) hw
  have hlength : l.length = rows.length := by
    have hlen := congrArg List.length (hl.symm.trans hflat)
    rwa [List.length_map, List.length_map, List.length_insertionSort] at hlen
  have hnodup : (l.map key).Nodup := hsort.imp fun hab => ne_of_lt hab
  have hsub : l.map key ⊆ rows.map key := fun k hk => by
    obtain ⟨r, hr, rfl⟩ := List.mem_map.1 hk
    exact List.mem_map_of_mem (hmem r hr).1
  have hperm : (l.map key).Perm (rows.map key) :=
    (List.subperm_of_subset hnodup hsub).perm_of_length_le (by simp [hlength])
  exact hn (hperm.nodup_iff.1 hnodup)

/-- The same server, with failures of another kind. -/
theorem mapError (h : Serves serve key rows shown token limits) {ε' : Type w} (f : ε → ε') :
    Serves (fun i t => (serve i t).mapError f) key rows shown token limits where
  first := fun i => congrArg (Except.mapError f) (h.first i)
  next := fun i k => congrArg (Except.mapError f) (h.next i k)

/-- **A server that answers nothing else** sends its clients on the same walk: one that refuses some
requests, or whose rows change after a walk. -/
theorem walk_of_answers (h : Serves serve key rows shown token limits) (hn : (rows.map key).Nodup)
    (hlimits : ∀ i, 0 < limits i) {ε' : Type w}
    {serve' : Nat → Option τ → Except ε' (List β × Option τ)}
    (first : ∀ a, serve' 0 none = .ok a → serve 0 none = .ok a)
    (next : ∀ i (k : κ) a, serve' i (some (token k)) = .ok a → serve i (some (token k)) = .ok a)
    {pages : List (List β)} (hw : Walk serve' 0 none pages) :
    pages.flatten = (rows.insertionSort fun a b => key a ≤ key b).map shown := by
  -- the tokens a client has are those of the server
  have hstep : ∀ i t a, ((i = 0 ∧ t = none) ∨ ∃ k, t = some (token k)) → serve' i t = .ok a →
      serve i t = .ok a ∧
        ∀ t', a.2 = some t' → (i + 1 = 0 ∧ some t' = none) ∨ ∃ k, some t' = some (token k) := by
    intro i t a hasked ha
    obtain ⟨last, hat, hserve⟩ : ∃ last, At token t last ∧ serve i t = .ok a := by
      rcases hasked with ⟨rfl, rfl⟩ | ⟨k, rfl⟩
      · exact ⟨⊥, .inl ⟨rfl, rfl⟩, first a ha⟩
      · exact ⟨k, .inr ⟨k, rfl, rfl⟩, next i k a ha⟩
    refine ⟨hserve, fun t' ht' => .inr ?_⟩
    rw [← Except.ok.inj ((h.page_eq hat i).symm.trans hserve)] at ht'
    obtain ⟨k, _, hk⟩ := Option.map_eq_some_iff.1 ht'
    exact ⟨k, by rw [hk]⟩
  have hsame : Walk serve 0 none pages := hw.imp hstep (.inl ⟨rfl, rfl⟩)
  obtain ⟨pages', hw', hflat⟩ := h.exists_walk hn hlimits
  rw [hsame.unique hw', hflat]

end Serves

end Keyset
