import WideColumn.Codec
import WideColumn.Proofs.Outcome

/-! Which decoded values can be stored again. Of what decoding makes only doubles that are not
finite are refused by encoding, and such doubles are read from number text at any depth: from
words such as `inf`, and from numerals that are too large for every finite double. The outcome
of encoding is thereby settled by the number texts of the stored value. -/
namespace WideColumn

open Outcome

namespace WireValue

mutual

/-- The number texts at any depth. -/
def numberTexts : WireValue → List String
  | .number text => [text]
  | .list items => numberTextsOf items
  | .map fields => numberTextsIn fields
  | .numberSet texts => texts
  | _ => []

def numberTextsOf : List WireValue → List String
  | [] => []
  | item :: rest => item.numberTexts ++ numberTextsOf rest

def numberTextsIn : List (String × WireValue) → List String
  | [] => []
  | (_, value) :: rest => value.numberTexts ++ numberTextsIn rest

end

end WireValue

/-- Is not read as an infinity or as what is not a number. -/
def FiniteText (text : String) : Prop :=
  ∀ x, Value.ofNumberText text = .ok (.float x) → x.isFinite

/-- An error for a double that some of the texts are read as. -/
def MapperError.IsNotFinite (texts : List String) (e : MapperError) : Prop :=
  ∃ text ∈ texts, ∃ x, Value.ofNumberText text = .ok (.float x) ∧ x.isFinite = false ∧
    e = .codec (.notFinite x)

theorem MapperError.IsNotFinite.mono {texts more : List String} {e : MapperError}
    (fails : e.IsNotFinite texts) (part : texts ⊆ more) : e.IsNotFinite more := by
  obtain ⟨text, member, rest⟩ := fails
  exact ⟨text, part member, rest⟩

/-- Ends well when all texts are finite, and else with an error for one that is not. -/
def SettledBy (texts : List String) : Except MapperError α → Prop
  | .ok _ => ∀ text ∈ texts, FiniteText text
  | .error e => e.IsNotFinite texts

namespace SettledBy

variable {texts more : List String} {x : Except MapperError α} {y : Except MapperError β}

theorem nothing (a : α) : SettledBy [] (.ok a) := by simp [SettledBy]

theorem map (f : α → β) (settled : SettledBy texts x) : SettledBy texts (x.map f) := by
  cases x <;> exact settled

theorem append {f : α → β → γ} (first : SettledBy texts x) (later : SettledBy more y) :
    SettledBy (texts ++ more) (do let a ← x; let b ← y; return f a b) := by
  cases x with
  | error e => exact first.mono (List.subset_append_left _ _)
  | ok a =>
    cases y with
    | error e => exact later.mono (List.subset_append_right _ _)
    | ok b => exact List.forall_mem_append.2 ⟨first, later⟩

theorem ok_iff (settled : SettledBy texts x) :
    (∃ a, x = .ok a) ↔ ∀ text ∈ texts, FiniteText text := by
  cases x with
  | ok a => exact iff_of_true ⟨a, rfl⟩ settled
  | error e =>
    obtain ⟨text, member, x, read, infinite, -⟩ := settled
    refine iff_of_false (by simp) fun finite => ?_
    rw [finite text member x read] at infinite
    cases infinite

end SettledBy

namespace Value

theorem ofNumberText_cases (done : ofNumberText text = .ok v) :
    (∃ n, v = .int n) ∨ ∃ x, v = .float x := by
  have double (x : Double) : (∃ n, ofDouble x = .int n) ∨ ∃ y, ofDouble x = .float y := by
    unfold ofDouble
    split
    · split
      · exact .inl ⟨_, rfl⟩
      · exact .inr ⟨_, rfl⟩
    · exact .inr ⟨_, rfl⟩
  simp only [ofNumberText] at done
  split at done
  · next n read => exact .inl ⟨n, (Except.ok.inj done).symm⟩
  · split at done
    · next x read => exact Except.ok.inj done ▸ double x
    · cases done

/-- A number is stored as a scalar and as a member of a set alike. -/
theorem memberText_settled (done : ofNumberText text = .ok v) :
    SettledBy [text] v.memberText := by
  rcases ofNumberText_cases done with ⟨n, rfl⟩ | ⟨x, rfl⟩
  · intro other only y read
    obtain rfl := List.mem_singleton.1 only
    cases done.symm.trans read
  · rw [memberText, Double.numberText]
    split
    · next finite =>
      intro other only y read
      obtain rfl := List.mem_singleton.1 only
      cases done.symm.trans read
      exact finite
    · next infinite =>
      exact ⟨text, List.mem_cons_self, x, done, by simpa using infinite, rfl⟩

theorem serialize_number (done : ofNumberText text = .ok v) :
    v.serialize = v.memberText.map .number := by
  rcases ofNumberText_cases done with ⟨n, rfl⟩ | ⟨x, rfl⟩ <;> rfl

theorem memberTexts_settled {texts : List String} {items : List Value}
    (done : ofNumberTexts texts = .ok items) : SettledBy texts (memberTexts items) := by
  induction texts generalizing items with
  | nil => cases done; exact .nothing _
  | cons text rest ih =>
    simp only [ofNumberTexts, bind_ok, pure_ok] at done
    obtain ⟨first, here, others, there, rfl⟩ := done
    exact (memberText_settled here).append (ih there)

mutual

/-- What encoding makes of a decoded value is settled by its number texts. -/
theorem serialize_settled : ∀ {w : WireValue} {v : Value}, w.deserialize = .ok v →
    SettledBy w.numberTexts v.serialize
  | .null _, _, done => by cases done; exact .nothing _
  | .bool _, _, done => by cases done; exact .nothing _
  | .string _, _, done => by cases done; exact .nothing _
  | .binary _, _, done => by cases done; exact .nothing _
  | .stringSet _, _, done => by cases done; exact .nothing _
  | .binarySet _, _, done => by cases done; exact .nothing _
  | .number text, _, done => by
    rw [serialize_number done]
    exact (memberText_settled done).map _
  | .list items, _, done => by
    obtain ⟨values, hitems, rfl⟩ := map_ok.1 done
    exact (serializeList_settled hitems).map _
  | .map fields, _, done => by
    obtain ⟨values, hfields, rfl⟩ := map_ok.1 done
    exact (serializeFields_settled hfields).map _
  | .numberSet texts, _, done => by
    obtain ⟨values, htexts, rfl⟩ := map_ok.1 done
    exact (memberTexts_settled htexts).map _

theorem serializeList_settled : ∀ {items : List WireValue} {values : List Value},
    WireValue.deserializeList items = .ok values →
    SettledBy (WireValue.numberTextsOf items) (serializeList values)
  | [], _, done => by cases done; exact .nothing _
  | item :: rest, _, done => by
    simp only [WireValue.deserializeList, bind_ok, pure_ok] at done
    obtain ⟨first, here, others, there, rfl⟩ := done
    exact (serialize_settled here).append (serializeList_settled there)

theorem serializeFields_settled : ∀ {fields : List (String × WireValue)}
    {values : List (String × Value)}, WireValue.deserializeFields fields = .ok values →
    SettledBy (WireValue.numberTextsIn fields) (serializeFields values)
  | [], _, done => by cases done; exact .nothing _
  | (name, value) :: rest, _, done => by
    simp only [WireValue.deserializeFields, bind_ok, pure_ok] at done
    obtain ⟨first, here, others, there, rfl⟩ := done
    exact (serialize_settled here).append (serializeFields_settled there)

end

end Value

end WideColumn
