import Mathlib.Data.List.Sort
import Mathlib.Order.MinMax
import Mathlib.Tactic.Cases

/-!
# Intervals of integers

An interval of integers with both ends in it (`Span`), with data that the operations carry along.

* `mergeNear` goes over spans ordered by their first number and joins a span to the one before it
  when there are at most `gap` numbers between them.  The span before it grows to the furthest end,
  so a long span keeps on absorbing after a short one inside it.
* `mem_mergeNear_iff` says what is covered afterwards: the numbers of the spans, and those of the
  stretches of at most `gap` numbers between two of them.
* `mergeNear_apart` says that what is left is far apart.
* `fillFrom` lays spans that are apart from each other out on an interval and makes a tile of each
  stretch between them.  The result is a tiling (`fillFrom_tiles`) whose tiles with data are the
  spans (`mem_fillFrom_some_iff`), and between two of those there is a tile without data that is as
  long as they are apart (`exists_tile_between`).
-/

set_option autoImplicit false

/-- The integers from `first` to `last`, with a piece of data. -/
structure Span (α : Type) where
  first : Int
  last : Int
  tag : α

namespace Span

variable {α : Type}

/-- The number is in the span. -/
def Has (s : Span α) (n : Int) : Prop := s.first ≤ n ∧ n ≤ s.last

instance (s : Span α) (n : Int) : Decidable (s.Has n) := inferInstanceAs (Decidable (_ ∧ _))

/-- There is a number in the span. -/
def Inhabited (s : Span α) : Prop := s.first ≤ s.last

/-- The number is in a stretch of at most `gap` numbers behind `s` and before `t`. -/
def Between (gap : Int) (s t : Span α) (n : Int) : Prop :=
  s.last < n ∧ n < t.first ∧ t.first - s.last - 1 ≤ gap

/-- There are more than `gap` numbers behind `s` and before `t`. -/
def Apart (gap : Int) (s t : Span α) : Prop := gap < t.first - s.last - 1

/-- The number is in one of the spans or in a short stretch between two. -/
def Reached (gap : Int) (spans : List (Span α)) (n : Int) : Prop :=
  (∃ s ∈ spans, s.Has n) ∨ ∃ s ∈ spans, ∃ t ∈ spans, Between gap s t n

end Span

namespace Intervals

open Span

variable {α : Type}

/-! ## Joining what is near -/

/-- The span that reaches from the first number of `s` to the furthest end. -/
def join (combine : α → α → α) (s t : Span α) : Span α :=
  ⟨s.first, max s.last t.last, combine s.tag t.tag⟩

/-- Join each span to the one before it when at most `gap` numbers are between them. -/
def mergeFrom (gap : Int) (combine : α → α → α) (s : Span α) : List (Span α) → List (Span α)
  | [] => [s]
  | t :: rest =>
    if t.first - s.last - 1 ≤ gap then mergeFrom gap combine (join combine s t) rest
    else s :: mergeFrom gap combine t rest

/-- `mergeFrom`, from the first of the spans. -/
def mergeNear (gap : Int) (combine : α → α → α) : List (Span α) → List (Span α)
  | [] => []
  | s :: rest => mergeFrom gap combine s rest

/-- The spans are ordered by their first number, and each has one. -/
def Ordered (spans : List (Span α)) : Prop :=
  spans.Pairwise (fun s t => s.first ≤ t.first) ∧ ∀ s ∈ spans, s.Inhabited

variable {gap : Int} {combine : α → α → α} {s t : Span α} {rest spans : List (Span α)} {n : Int}

theorem Ordered.tail (h : Ordered (s :: rest)) : Ordered rest :=
  ⟨(List.pairwise_cons.1 h.1).2, fun t ht => h.2 t (List.mem_cons_of_mem _ ht)⟩

theorem Ordered.head_le (h : Ordered (s :: rest)) (ht : t ∈ rest) : s.first ≤ t.first :=
  (List.pairwise_cons.1 h.1).1 t ht

/-- No span starts before the first one. -/
theorem Ordered.first_le (h : Ordered (s :: rest)) (ht : t ∈ s :: rest) : s.first ≤ t.first := by
  rcases List.mem_cons.1 ht with rfl | ht
  · exact le_rfl
  · exact h.head_le ht

theorem Ordered.join (h : Ordered (s :: t :: rest)) :
    Ordered (Intervals.join combine s t :: rest) := by
  refine ⟨List.pairwise_cons.2 ⟨fun u hu => h.head_le (List.mem_cons_of_mem _ hu),
    h.tail.tail.1⟩, List.forall_mem_cons.2 ⟨?_, h.tail.tail.2⟩⟩
  have hs : s.first ≤ s.last := h.2 s List.mem_cons_self
  exact hs.trans (le_max_left _ _)

/-- Nothing is between a span and one that starts earlier. -/
theorem not_between_of_le (hs : s.Inhabited) (h : t.first ≤ s.first) : ¬ Between gap s t n := by
  rintro ⟨h1, h2, -⟩
  have : s.first ≤ s.last := hs
  omega

/-- Two spans that are near, joined, reach what they reach as two. -/
theorem reached_join_iff (h : Ordered (s :: t :: rest)) (hnear : t.first - s.last - 1 ≤ gap) :
    Reached gap (join combine s t :: rest) n ↔ Reached gap (s :: t :: rest) n := by
  have hst : s.first ≤ t.first := h.head_le List.mem_cons_self
  have hs : s.first ≤ s.last := h.2 s List.mem_cons_self
  have ht : t.first ≤ t.last := h.2 t (by simp)
  have hjoin : (join combine s t).Has n ↔ s.first ≤ n ∧ (n ≤ s.last ∨ n ≤ t.last) := by
    simp only [Has, join, le_max_iff]
  constructor
  · rintro (⟨u, hu, hn⟩ | ⟨u, hu, v, hv, hn⟩)
    · rcases List.mem_cons.1 hu with rfl | hu
      · rw [hjoin] at hn
        by_cases h1 : n ≤ s.last
        · exact .inl ⟨s, List.mem_cons_self, hn.1, h1⟩
        · by_cases h2 : t.first ≤ n
          · exact .inl ⟨t, by simp, h2, by omega⟩
          · exact .inr ⟨s, List.mem_cons_self, t, by simp, by omega, by omega, hnear⟩
      · exact .inl ⟨u, by simp [hu], hn⟩
    · rcases List.mem_cons.1 hv with rfl | hv
      · exact absurd hn (not_between_of_le (h.join.2 u hu) (h.join.first_le hu))
      · rcases List.mem_cons.1 hu with rfl | hu
        · obtain ⟨h1, h2, h3⟩ := hn
          simp only [join] at h1 h3
          rcases le_total s.last t.last with hle | hle
          · rw [max_eq_right hle] at h1 h3
            exact .inr ⟨t, by simp, v, by simp [hv], h1, h2, h3⟩
          · rw [max_eq_left hle] at h1 h3
            exact .inr ⟨s, by simp, v, by simp [hv], h1, h2, h3⟩
        · exact .inr ⟨u, by simp [hu], v, by simp [hv], hn⟩
  · rintro (⟨u, hu, hn⟩ | ⟨u, hu, v, hv, hn⟩)
    · rcases List.mem_cons.1 hu with rfl | hu
      · exact .inl ⟨_, List.mem_cons_self, hjoin.2 ⟨hn.1, .inl hn.2⟩⟩
      · rcases List.mem_cons.1 hu with rfl | hu
        · exact .inl ⟨_, List.mem_cons_self, hjoin.2 ⟨hst.trans hn.1, .inr hn.2⟩⟩
        · exact .inl ⟨u, by simp [hu], hn⟩
    · obtain ⟨h1, h2, h3⟩ := hn
      -- a stretch that starts behind one of the two is in the joined span or starts behind it
      have hbehind : ∀ w : Span α, w = s ∨ w = t → w.last < n → v ∈ rest →
          v.first - w.last - 1 ≤ gap → Reached gap (join combine s t :: rest) n := by
        rintro w hw hlt hv hg
        by_cases hin : (join combine s t).Has n
        · exact .inl ⟨_, List.mem_cons_self, hin⟩
        · rw [hjoin] at hin
          refine .inr ⟨_, List.mem_cons_self, v, by simp [hv], ?_, h2, ?_⟩
          · simp only [join, max_lt_iff]
            rcases hw with rfl | rfl <;> omega
          · simp only [join]
            have : w.last ≤ max s.last t.last := by
              rcases hw with rfl | rfl
              · exact le_max_left _ _
              · exact le_max_right _ _
            omega
      rcases List.mem_cons.1 hv with rfl | hv1
      · exact absurd ⟨h1, h2, h3⟩ (not_between_of_le (h.2 u hu) (h.first_le hu))
      rcases List.mem_cons.1 hv1 with rfl | hv2
      · rcases List.mem_cons.1 hu with rfl | hu1
        · exact .inl ⟨_, List.mem_cons_self, hjoin.2 ⟨by omega, .inr (by omega)⟩⟩
        · exact absurd ⟨h1, h2, h3⟩ (not_between_of_le (h.tail.2 u hu1) (h.tail.first_le hu1))
      · rcases List.mem_cons.1 hu with rfl | hu1
        · exact hbehind u (.inl rfl) h1 hv2 h3
        · rcases List.mem_cons.1 hu1 with rfl | hu2
          · exact hbehind u (.inr rfl) h1 hv2 h3
          · exact .inr ⟨u, by simp [hu2], v, by simp [hv2], h1, h2, h3⟩

/-- A span that is far from all others reaches its own numbers only. -/
theorem reached_cons_iff (h : Ordered (s :: t :: rest)) (hfar : ¬ t.first - s.last - 1 ≤ gap) :
    Reached gap (s :: t :: rest) n ↔ s.Has n ∨ Reached gap (t :: rest) n := by
  constructor
  · rintro (⟨u, hu, hn⟩ | ⟨u, hu, v, hv, hn⟩)
    · rcases List.mem_cons.1 hu with rfl | hu
      · exact .inl hn
      · exact .inr (.inl ⟨u, hu, hn⟩)
    · rcases List.mem_cons.1 hv with rfl | hv1
      · exact absurd hn (not_between_of_le (h.2 u hu) (h.first_le hu))
      · rcases List.mem_cons.1 hu with rfl | hu1
        · exfalso
          have htv : t.first ≤ v.first := h.tail.first_le hv1
          have := hn.2.2
          omega
        · exact .inr (.inr ⟨u, hu1, v, hv1, hn⟩)
  · rintro (hn | ⟨u, hu, hn⟩ | ⟨u, hu, v, hv, hn⟩)
    · exact .inl ⟨s, List.mem_cons_self, hn⟩
    · exact .inl ⟨u, List.mem_cons_of_mem _ hu, hn⟩
    · exact .inr ⟨u, List.mem_cons_of_mem _ hu, v, List.mem_cons_of_mem _ hv, hn⟩

theorem reached_singleton (hs : s.Inhabited) : Reached gap [s] n ↔ s.Has n := by
  constructor
  · rintro (⟨u, hu, hn⟩ | ⟨u, hu, v, hv, hn⟩)
    · rwa [List.mem_singleton.1 hu] at hn
    · rw [List.mem_singleton.1 hu, List.mem_singleton.1 hv] at hn
      exact absurd hn (not_between_of_le hs le_rfl)
  · exact fun hn => .inl ⟨s, List.mem_cons_self, hn⟩

theorem mem_mergeFrom_iff (h : Ordered (s :: rest)) :
    (∃ u ∈ mergeFrom gap combine s rest, u.Has n) ↔ Reached gap (s :: rest) n := by
  induction rest generalizing s with
  | nil =>
    rw [reached_singleton (h.2 s List.mem_cons_self)]
    simp only [mergeFrom, List.mem_singleton, exists_eq_left]
  | cons t rest ih =>
    rw [mergeFrom]
    split
    · next hnear => rw [ih h.join, reached_join_iff h hnear]
    · next hfar =>
      rw [reached_cons_iff h hfar, ← ih h.tail, List.exists_mem_cons_iff]

/-- **A number is covered after the merge if and only if it was in a span or in a stretch of at most
`gap` numbers between two.** -/
theorem mem_mergeNear_iff (h : Ordered spans) :
    (∃ u ∈ mergeNear gap combine spans, u.Has n) ↔ Reached gap spans n := by
  cases spans with
  | nil => simp [mergeNear, Reached]
  | cons s rest => exact mem_mergeFrom_iff h

/-! ## What is left is apart -/

/-- No span that is left starts before the first one. -/
theorem first_le_of_mem_mergeFrom (h : Ordered (s :: rest))
    (ht : t ∈ mergeFrom gap combine s rest) : s.first ≤ t.first := by
  induction rest generalizing s with
  | nil => rw [List.mem_singleton.1 ht]
  | cons u rest ih =>
    rw [mergeFrom] at ht
    split at ht
    · exact ih (s := join combine s u) h.join ht
    · rcases List.mem_cons.1 ht with rfl | ht
      · exact le_rfl
      · exact (h.head_le List.mem_cons_self).trans (ih h.tail ht)

theorem mergeFrom_apart (h : Ordered (s :: rest)) :
    (mergeFrom gap combine s rest).Pairwise (Apart gap) := by
  induction rest generalizing s with
  | nil => exact List.pairwise_singleton _ _
  | cons t rest ih =>
    rw [mergeFrom]
    split
    · exact ih h.join
    · next hfar =>
      refine List.pairwise_cons.2 ⟨fun u hu => ?_, ih h.tail⟩
      have := first_le_of_mem_mergeFrom h.tail hu
      rw [Apart]
      omega

/-- **Of two spans that are left the second starts more than `gap` numbers behind the first.** -/
theorem mergeNear_apart (h : Ordered spans) :
    (mergeNear gap combine spans).Pairwise (Apart gap) := by
  cases spans with
  | nil => exact List.Pairwise.nil
  | cons s rest => exact mergeFrom_apart h

/-- A property of spans that joining keeps holds of what is left. -/
theorem forall_mem_mergeNear {P : Span α → Prop} (hjoin : ∀ s t, P s → P t → P (join combine s t))
    (h : ∀ s ∈ spans, P s) : ∀ s ∈ mergeNear gap combine spans, P s := by
  have from_head : ∀ (rest : List (Span α)) (s : Span α), P s → (∀ t ∈ rest, P t) →
      ∀ u ∈ mergeFrom gap combine s rest, P u := by
    intro rest
    induction rest with
    | nil =>
      intro s hs _ u hu
      rwa [List.mem_singleton.1 hu]
    | cons t rest ih =>
      intro s hs hrest u hu
      obtain ⟨ht, hrest⟩ := List.forall_mem_cons.1 hrest
      rw [mergeFrom] at hu
      split at hu
      · exact ih _ (hjoin s t hs ht) hrest u hu
      · rcases List.mem_cons.1 hu with rfl | hu
        · exact hs
        · exact ih t ht hrest u hu
  cases spans with
  | nil => exact fun s hs => absurd hs List.not_mem_nil
  | cons s rest =>
    obtain ⟨hs, hrest⟩ := List.forall_mem_cons.1 h
    exact from_head rest s hs hrest

/-! ## Tiling an interval -/

/-- The spans follow each other without a gap, from `start` to `stop`, and none is empty. -/
def Tiles (start stop : Int) : List (Span α) → Prop
  | [] => start = stop + 1
  | s :: rest => s.first = start ∧ s.Inhabited ∧ Tiles (s.last + 1) stop rest

/-- The spans as tiles, and a tile without data for each stretch between `cursor` and `stop` that
they leave. -/
def fillFrom (stop : Int) : Int → List (Span α) → List (Span (Option α))
  | cursor, [] => if cursor ≤ stop then [⟨cursor, stop, none⟩] else []
  | cursor, s :: rest =>
    (if cursor < s.first then [⟨cursor, s.first - 1, none⟩] else []) ++
      ⟨s.first, s.last, some s.tag⟩ :: fillFrom stop (s.last + 1) rest

/-- Spans that can be laid out between two numbers: in order, apart, and within. -/
structure Laid (gap start stop : Int) (spans : List (Span α)) : Prop where
  inhabited : ∀ s ∈ spans, s.Inhabited
  apart : spans.Pairwise (Apart gap)
  within : ∀ s ∈ spans, start ≤ s.first ∧ s.last ≤ stop

variable {start stop cursor : Int}

theorem Laid.tail (hgap : 0 ≤ gap) (h : Laid gap start stop (s :: rest)) :
    Laid gap (s.last + 1) stop rest where
  inhabited t ht := h.inhabited t (List.mem_cons_of_mem _ ht)
  apart := (List.pairwise_cons.1 h.apart).2
  within t ht := by
    have hfar : gap < t.first - s.last - 1 := (List.pairwise_cons.1 h.apart).1 t ht
    exact ⟨by omega, (h.within t (List.mem_cons_of_mem _ ht)).2⟩

/-- **The layout is a tiling of the interval.** -/
theorem fillFrom_tiles (hgap : 0 ≤ gap) (h : Laid gap cursor stop spans) (hc : cursor ≤ stop + 1) :
    Tiles cursor stop (fillFrom stop cursor spans) := by
  induction spans generalizing cursor with
  | nil =>
    rw [fillFrom]
    split
    · next hle => exact ⟨rfl, hle, rfl⟩
    · next hgt => exact (by omega : cursor = stop + 1)
  | cons s rest ih =>
    obtain ⟨hfirst, hlast⟩ := h.within s List.mem_cons_self
    have hs : s.Inhabited := h.inhabited s List.mem_cons_self
    have hrest := ih (h.tail hgap) (by omega)
    rw [fillFrom]
    split
    · next hlt =>
      refine ⟨rfl, (by omega : cursor ≤ s.first - 1), ?_, hs, hrest⟩
      exact (by omega : s.first = s.first - 1 + 1)
    · next hge => exact ⟨(by omega : s.first = cursor), hs, hrest⟩

/-- The tiles with data are the spans. -/
theorem mem_fillFrom_some_iff {a b : Int} {x : α} :
    (⟨a, b, some x⟩ : Span (Option α)) ∈ fillFrom stop cursor spans ↔ ⟨a, b, x⟩ ∈ spans := by
  induction spans generalizing cursor with
  | nil =>
    rw [fillFrom]
    split <;> simp
  | cons s rest ih =>
    rw [fillFrom, List.mem_append, List.mem_cons, ih, List.mem_cons]
    obtain ⟨f, l, y⟩ := s
    split <;> simp

theorem mem_fillFrom_of_mem (h : s ∈ spans) :
    (⟨s.first, s.last, some s.tag⟩ : Span (Option α)) ∈ fillFrom stop cursor spans :=
  mem_fillFrom_some_iff.2 h

/-- Of spans that are apart, the one that starts later starts behind the other. -/
theorem Laid.last_lt (hgap : 0 ≤ gap) (h : Laid gap start stop (s :: rest)) (ht : t ∈ rest) :
    s.last < t.first := by
  have hfar : gap < t.first - s.last - 1 := (List.pairwise_cons.1 h.apart).1 t ht
  omega

/-- **Between two of the spans there is a tile without data of more than `gap` numbers.** -/
theorem exists_tile_between (hgap : 0 ≤ gap) (h : Laid gap cursor stop spans) (hs : s ∈ spans)
    (ht : t ∈ spans) (hst : s.first < t.first) :
    ∃ c ∈ fillFrom stop cursor spans, c.tag = none ∧ s.last < c.first ∧ c.last < t.first ∧
      gap < c.last - c.first + 1 := by
  induction spans generalizing cursor with
  | nil => exact absurd hs List.not_mem_nil
  | cons u rest ih =>
    have hu : u.first ≤ u.last := h.inhabited u List.mem_cons_self
    rcases List.mem_cons.1 ht with rfl | ht1
    · -- nothing is before the first span
      exfalso
      rcases List.mem_cons.1 hs with rfl | hs1
      · omega
      · have := h.last_lt hgap hs1
        omega
    · rcases List.mem_cons.1 hs with rfl | hs1
      · -- the stretch behind the span, up to the one that follows it
        obtain _ | ⟨v, rest⟩ := rest
        · exact absurd ht1 List.not_mem_nil
        have hfar : gap < v.first - s.last - 1 :=
          (List.pairwise_cons.1 h.apart).1 v List.mem_cons_self
        have hvt : v.first ≤ t.first := by
          rcases List.mem_cons.1 ht1 with rfl | ht2
          · exact le_rfl
          · have := (h.tail hgap).last_lt hgap ht2
            have : v.first ≤ v.last := h.inhabited v (by simp)
            omega
        refine ⟨⟨s.last + 1, v.first - 1, none⟩, ?_, rfl, ?_, ?_, ?_⟩
        · refine List.mem_append_right _ (List.mem_cons_of_mem _ ?_)
          rw [fillFrom, if_pos (by omega)]
          exact List.mem_cons_self
        all_goals
          simp only
          omega
      · obtain ⟨c, hc, hrest⟩ := ih (h.tail hgap) hs1 ht1
        refine ⟨c, ?_, hrest⟩
        rw [fillFrom]
        exact List.mem_append_right _ (List.mem_cons_of_mem _ hc)

end Intervals
