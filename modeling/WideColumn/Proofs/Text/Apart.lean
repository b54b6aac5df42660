import Mathlib.Data.List.Forall2
import Mathlib.Data.List.Infix

/-! Texts that are told apart by their fronts. Two texts are apart when neither starts with the
other: then nothing that is written behind them makes them equal, and a whole text can be compared
by the first of its parts that are not the same. Where two parts are apart only because of what
has to follow them, as numbers are, `SameIff` says what may follow. -/
namespace WideColumn.Text

/-- Neither text starts with the other. -/
def Apart (a b : List Char) : Prop := ¬a <+: b ∧ ¬b <+: a

theorem Apart.symm (apart : Apart a b) : Apart b a := ⟨apart.2, apart.1⟩

theorem Apart.ne (apart : Apart a b) : a ≠ b := by
  rintro rfl
  exact apart.1 (List.prefix_refl a)

theorem Apart.append (apart : Apart a b) (s t : List Char) : Apart (a ++ s) (b ++ t) := by
  have step {a b s t : List Char} (apart : Apart a b) : ¬a ++ s <+: b ++ t := by
    intro starts
    have front : a <+: b ++ t := (List.prefix_append a s).trans starts
    rcases List.prefix_or_prefix_of_prefix front (List.prefix_append b t) with h | h
    · exact apart.1 h
    · exact apart.2 h
  exact ⟨step apart, step apart.symm⟩

theorem Apart.prepend (apart : Apart a b) (front : List Char) : Apart (front ++ a) (front ++ b) := by
  simpa only [Apart, List.prefix_append_right_inj] using apart

theorem apart_cons (ne : c ≠ d) (s t : List Char) : Apart (c :: s) (d :: t) := by
  simp [Apart, ne, ne.symm]

/-- Digits with different characters behind them that are no digits. -/
theorem apart_digits {digits others : List Char} (first : ∀ a ∈ digits, a.isDigit)
    (second : ∀ a ∈ others, a.isDigit) (endsFirst : c.isDigit = false) (endsSecond : d.isDigit = false)
    (ne : c ≠ d) (s t : List Char) : Apart (digits ++ c :: s) (others ++ d :: t) := by
  induction digits generalizing others with
  | nil =>
    cases others with
    | nil => exact apart_cons ne s t
    | cons b others =>
      apply apart_cons
      rintro rfl
      rw [second c List.mem_cons_self] at endsFirst
      cases endsFirst
  | cons a digits ih =>
    have digit := first a List.mem_cons_self
    cases others with
    | nil =>
      apply apart_cons
      rintro rfl
      rw [digit] at endsSecond
      cases endsSecond
    | cons b others =>
      by_cases same : a = b
      · subst same
        have later := ih (fun a h => first a (List.mem_cons_of_mem _ h))
          (fun a h => second a (List.mem_cons_of_mem _ h))
        exact later.prepend [a]
      · exact apart_cons same _ _

/-- The same text under a condition, and apart without it, with anything behind them that is
allowed there. -/
structure SameIff (ends : List Char → Prop) (p : Prop) (a b : List Char) : Prop where
  same : p → a = b
  apart : ¬p → ∀ s t, ends s → ends t → Apart (a ++ s) (b ++ t)

namespace SameIff

variable {ends : List Char → Prop} {p q : Prop} {a b c d : List Char}

theorem refl (holds : p) (a : List Char) : SameIff ends p a a := ⟨fun _ => rfl, fun fails => absurd holds fails⟩

theorem of_apart (fails : ¬p) (apart : Apart a b) : SameIff ends p a b :=
  ⟨fun holds => absurd holds fails, fun _ s t _ _ => apart.append s t⟩

theorem mono {fewer : List Char → Prop} (whole : SameIff ends p a b) (h : ∀ s, fewer s → ends s) :
    SameIff fewer p a b :=
  ⟨whole.same, fun fails s t hs ht => whole.apart fails s t (h s hs) (h t ht)⟩

theorem eq_iff (whole : SameIff ends p a b) (possible : ends s) : a = b ↔ p := by
  refine ⟨fun same => ?_, whole.same⟩
  by_contra fails
  exact (whole.apart fails s s possible possible).ne (by rw [same])

theorem congr (whole : SameIff ends p a b) (same : p ↔ q) : SameIff ends q a b :=
  ⟨fun holds => whole.same (same.2 holds), fun fails => whole.apart fun holds => fails (same.1 holds)⟩

theorem prepend (whole : SameIff ends p a b) (front : List Char) :
    SameIff ends p (front ++ a) (front ++ b) where
  same holds := by rw [whole.same holds]
  apart fails s t hs ht := by
    rw [List.append_assoc, List.append_assoc]
    exact (whole.apart fails s t hs ht).prepend front

/-- With the same text behind both, more may follow. -/
theorem close {more : List Char → Prop} (whole : SameIff ends p a b) (behind : List Char)
    (follows : ∀ s, more s → ends (behind ++ s)) :
    SameIff more p (a ++ behind) (b ++ behind) where
  same holds := by rw [whole.same holds]
  apart fails s t hs ht := by
    rw [List.append_assoc, List.append_assoc]
    exact whole.apart fails _ _ (follows s hs) (follows t ht)

theorem append (first : SameIff ends p a b) (later : SameIff ends q c d)
    (follows : ∀ s, ends s → ends (c ++ s) ∧ ends (d ++ s)) :
    SameIff ends (p ∧ q) (a ++ c) (b ++ d) where
  same holds := by rw [first.same holds.1, later.same holds.2]
  apart fails s t hs ht := by
    rw [List.append_assoc, List.append_assoc]
    by_cases front : p
    · rw [first.same front]
      exact (later.apart (fun behind => fails ⟨front, behind⟩) s t hs ht).prepend b
    · exact first.apart front _ _ (follows s hs).1 (follows t ht).2

/-- Parts with a separator in between. -/
theorem intercalate {p : α → Prop} {f : β → List Char} {g : α → List Char} {items : List α}
    {others : List β} (separator : List Char) (follows : ∀ s, ends (separator ++ s))
    (each : List.Forall₂ (fun x y => SameIff ends (p x) (f y) (g x)) items others) :
    SameIff ends (∀ x ∈ items, p x) (separator.intercalate (others.map f))
      (separator.intercalate (items.map g)) := by
  induction each with
  | nil => exact refl (by simp) []
  | @cons x y items others here there ih =>
    have all : p x ∧ (∀ x ∈ items, p x) ↔ ∀ z ∈ x :: items, p z := by simp
    cases there with
    | nil => simpa using here
    | cons next rest =>
      have behind := here.append (ih.prepend separator)
        (fun s _ => by simp only [List.append_assoc]; exact ⟨follows _, follows _⟩)
      simpa only [List.map_cons, List.intercalate_cons_cons, List.append_assoc] using behind.congr all

end SameIff

end WideColumn.Text
