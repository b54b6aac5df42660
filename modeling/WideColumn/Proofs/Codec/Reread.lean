import WideColumn.Proofs.Codec.Integral
import WideColumn.Proofs.Codec.Storable
import WideColumn.Value.Text

/-! What a stored value is read back as, beside the value itself. `Value.Reread` holds what is kept
of it: the segment that it adds to a joined attribute stays the same exactly for steady values, and
the stored form stays the same exactly without a negative zero. Both go by the doubles of the value
at any depth, and a container is compared by the first of its parts that is not the same. -/
namespace WideColumn

open Outcome Text

namespace Value

/-- The JSON text of a value as what it is read back as. -/
abbrev jsonChars (v : Value) : List Char := v.toJson.print.toList

/-- The JSON text is the same when no double at any depth is read back as an integer. -/
def PrintsAlike (v back : Value) : Prop :=
  SameIff Ended (∀ x ∈ v.doubles, ¬x.Integral64) back.jsonChars v.jsonChars

theorem PrintsAlike.refl (none : v.doubles = []) : PrintsAlike v v :=
  SameIff.refl (by simp [none]) _

/-- Whatever may follow. -/
abbrev Open : List Char → Prop := fun _ => True

/-- What the text of a stored number is read back as. -/
structure RereadNumber (v : Value) (text : String) (back : Value) : Prop where
  read : ofNumberText text = .ok back
  member : back.memberText = .ok back.display
  stored : back.serialize = .ok (.number back.display)
  prints : PrintsAlike v back
  shown : SameIff Open (∀ x ∈ v.doubles, x ≠ .negativeZero) back.display.toList text.toList

theorem rereadNumber_int (n : Int64) : RereadNumber (.int n) (toString n.toInt) (.int n) where
  read := ofNumberText_toString n
  member := rfl
  stored := rfl
  prints := .refl rfl
  shown := .refl (by simp [doubles]) _

theorem rereadNumber_float {x : Double} (done : x.numberText = .ok text) :
    ∃ back, RereadNumber (.float x) text back := by
  unfold Double.numberText at done
  split at done
  · next finite =>
    cases done
    have stored : serialize (.float x) = .ok (.number x.display) := by
      simp [serialize, Double.numberText, finite, Except.map]
    rcases ofNumberText_display_cases finite with ⟨integral, n, read, shown⟩ | ⟨other, read⟩
    · refine ⟨.int n, read, rfl, rfl, ?_, shown.congr (by simp [doubles])⟩
      refine ⟨fun none => absurd integral (none x (by simp [doubles])), fun _ s t hs _ => ?_⟩
      have apart := Double.apart_jsonText finite n.toInt t hs
      simpa [jsonChars, toJson, finite, Json.print] using apart
    · have nonzero : x ≠ .negativeZero := by
        rintro rfl
        exact other ⟨0, Double.toInt?_negativeZero, by decide⟩
      refine ⟨.float x, read, by simp [memberText, Double.numberText, finite, display], stored, ?_, ?_⟩
      · exact SameIff.refl (by simpa [doubles] using other) _
      · exact SameIff.refl (by simpa [doubles] using nonzero) _
  · cases done

theorem rereadNumber_member {v : Value} (done : v.memberText = .ok text) :
    ∃ back, RereadNumber v text back := by
  cases v with
  | int n => cases done; exact ⟨_, rereadNumber_int n⟩
  | float x => exact rereadNumber_float done
  | _ => cases done

/-! Containers. -/

theorem print_array (items : List Value) :
    (Json.array (listToJson items)).print.toList =
      '[' :: ([','].intercalate (items.map jsonChars) ++ [']']) := by
  have texts : Json.printItems (listToJson items) = items.map fun v => v.toJson.print := by
    induction items with
    | nil => rfl
    | cons v rest ih => simp [listToJson, Json.printItems, ih]
  simp [Json.print, texts, Function.comp_def]

abbrev fieldChars (field : String × Value) : List Char :=
  (Json.quote field.1).toList ++ ':' :: field.2.jsonChars

theorem print_object (fields : List (String × Value)) :
    (Json.object (fieldsToJson fields)).print.toList =
      '\x7b' :: ([','].intercalate (fields.map fieldChars) ++ ['\x7d']) := by
  have texts : Json.printFields (fieldsToJson fields) =
      fields.map fun field => Json.quote field.1 ++ ":" ++ field.2.toJson.print := by
    induction fields with
    | nil => rfl
    | cons field rest ih => simp [fieldsToJson, Json.printFields, ih]
  simp [Json.print, texts, Function.comp_def]

theorem forall_doublesOf {items : List Value} {p : Double → Prop} :
    (∀ v ∈ items, ∀ x ∈ v.doubles, p x) ↔ ∀ x ∈ doublesOf items, p x := by
  induction items with
  | nil => simp [doublesOf]
  | cons v rest ih => simp only [List.forall_mem_cons, doublesOf, List.forall_mem_append, ih]

theorem forall_doublesIn {fields : List (String × Value)} {p : Double → Prop} :
    (∀ field ∈ fields, ∀ x ∈ field.2.doubles, p x) ↔ ∀ x ∈ doublesIn fields, p x := by
  induction fields with
  | nil => simp [doublesIn]
  | cons field rest ih => simp only [List.forall_mem_cons, doublesIn, List.forall_mem_append, ih]

theorem ended_comma (s : List Char) : Ended ([','] ++ s) := ⟨',', s, rfl, rfl, by decide, by decide⟩

/-- Between brackets every item ends where it has to. -/
theorem sameIff_array (each : List.Forall₂ PrintsAlike items back) :
    SameIff Open (∀ x ∈ doublesOf items, ¬x.Integral64)
      (Json.array (listToJson back)).print.toList (Json.array (listToJson items)).print.toList := by
  rw [print_array, print_array]
  have inside := (SameIff.intercalate [','] ended_comma each).congr forall_doublesOf
  exact (inside.close [']'] fun s _ => ⟨']', s, rfl, rfl, by decide, by decide⟩).prepend ['[']

theorem sameIff_object
    (each : List.Forall₂ (fun field other => field.1 = other.1 ∧ PrintsAlike field.2 other.2) fields back) :
    SameIff Open (∀ x ∈ doublesIn fields, ¬x.Integral64)
      (Json.object (fieldsToJson back)).print.toList
      (Json.object (fieldsToJson fields)).print.toList := by
  rw [print_object, print_object]
  have named : List.Forall₂ (fun field other => SameIff Ended (∀ x ∈ field.2.doubles, ¬x.Integral64)
      (fieldChars other) (fieldChars field)) fields back := by
    refine each.imp fun field other alike => ?_
    obtain ⟨name, prints⟩ := alike
    rw [fieldChars, fieldChars, name]
    exact (prints.prepend [':']).prepend _
  have inside := (SameIff.intercalate [','] ended_comma named).congr forall_doublesIn
  exact (inside.close ['\x7d'] fun s _ => ⟨'\x7d', s, rfl, rfl, by decide, by decide⟩).prepend ['\x7b']

/-! Whole values. -/

/-- Has the same segment when it is read back: a plain double that is not the negative zero, and a
container without doubles that are integers of 64 bits. -/
def Steady : Value → Prop
  | .float x => x ≠ .negativeZero
  | other => ∀ x ∈ other.doubles, ¬x.Integral64

/-- What a stored value is read back as. -/
structure Reread (v : Value) (w : WireValue) (back : Value) : Prop where
  read : w.deserialize = .ok back
  prints : PrintsAlike v back
  segment : SameIff Open v.Steady back.joinSegment.toList v.joinSegment.toList
  again : ∃ stored, back.serialize = .ok stored ∧
    (stored = w ↔ ∀ x ∈ v.doubles, x ≠ .negativeZero)

/-- What the texts of a stored number set are read back as. -/
structure RereadMembers (items : List Value) (texts : List String) (back : List Value) : Prop where
  read : ofNumberTexts texts = .ok back
  prints : List.Forall₂ PrintsAlike items back
  again : ∃ more, memberTexts back = .ok more ∧
    (more = texts ↔ ∀ x ∈ doublesOf items, x ≠ .negativeZero)

structure RereadItems (items : List Value) (stored : List WireValue) (back : List Value) : Prop where
  read : WireValue.deserializeList stored = .ok back
  prints : List.Forall₂ PrintsAlike items back
  again : ∃ more, serializeList back = .ok more ∧
    (more = stored ↔ ∀ x ∈ doublesOf items, x ≠ .negativeZero)

structure RereadFields (fields : List (String × Value)) (stored : List (String × WireValue))
    (back : List (String × Value)) : Prop where
  read : WireValue.deserializeFields stored = .ok back
  prints : List.Forall₂ (fun field other => field.1 = other.1 ∧ PrintsAlike field.2 other.2) fields back
  again : ∃ more, serializeFields back = .ok more ∧
    (more = stored ↔ ∀ x ∈ doublesIn fields, x ≠ .negativeZero)

/-- Without doubles a value is read back as it is. -/
theorem Reread.itself {v : Value} (none : v.doubles = []) (stored : v.serialize = .ok w)
    (read : w.deserialize = .ok v) : Reread v w v where
  read := read
  prints := .refl none
  segment := by
    refine .refl ?_ _
    cases v with
    | float x => cases none
    | _ => simp only [Steady, none, List.not_mem_nil, false_implies, implies_true]
  again := ⟨w, stored, by simp [none]⟩

theorem RereadNumber.again (number : RereadNumber v text back) :
    back.display = text ↔ ∀ x ∈ v.doubles, x ≠ .negativeZero := by
  have nothing : Open [] := trivial
  rw [← number.shown.eq_iff nothing, String.toList_inj]

theorem RereadNumber.value {x : Double} (done : x.numberText = .ok text)
    (number : RereadNumber (.float x) text back) : Reread (.float x) (.number text) back where
  read := number.read
  prints := number.prints
  segment := by
    have written : text = x.display := by
      unfold Double.numberText at done
      split at done
      · exact (Except.ok.inj done).symm
      · cases done
    have plain : back.joinSegment = back.display := by
      rcases ofNumberText_cases number.read with ⟨n, rfl⟩ | ⟨y, rfl⟩ <;> rfl
    have shown := number.shown.congr (by simp [Steady, doubles] : _ ↔ (float x).Steady)
    rw [written] at shown
    rw [plain]
    exact shown
  again := ⟨_, number.stored, by rw [WireValue.number.injEq, number.again]⟩

theorem RereadMembers.nil : RereadMembers [] [] [] := ⟨rfl, .nil, [], rfl, by simp [doublesOf]⟩

theorem RereadMembers.cons (first : RereadNumber v text back) (more : RereadMembers items texts others) :
    RereadMembers (v :: items) (text :: texts) (back :: others) where
  read := by simp [ofNumberTexts, first.read, more.read, pure, Except.pure]
  prints := .cons first.prints more.prints
  again := by
    obtain ⟨others', there, same⟩ := more.again
    refine ⟨back.display :: others', by simp [memberTexts, first.member, there, pure, Except.pure], ?_⟩
    rw [List.cons.injEq, first.again, same, doublesOf, List.forall_mem_append]

theorem RereadMembers.numberSet (more : RereadMembers items texts back) :
    Reread (.numberSet items) (.numberSet texts) (.numberSet back) where
  read := map_ok.2 ⟨back, more.read, rfl⟩
  prints := (sameIff_array more.prints).mono fun _ _ => trivial
  segment := sameIff_array more.prints
  again := by
    obtain ⟨texts', there, same⟩ := more.again
    exact ⟨_, map_ok.2 ⟨texts', there, rfl⟩, by simpa [doubles] using same⟩

theorem RereadItems.nil : RereadItems [] [] [] := ⟨rfl, .nil, [], rfl, by simp [doublesOf]⟩

theorem RereadItems.cons (first : Reread v w back) (more : RereadItems items stored others) :
    RereadItems (v :: items) (w :: stored) (back :: others) where
  read := by simp [WireValue.deserializeList, first.read, more.read, pure, Except.pure]
  prints := .cons first.prints more.prints
  again := by
    obtain ⟨w', here, same⟩ := first.again
    obtain ⟨stored', there, sameItems⟩ := more.again
    refine ⟨w' :: stored', by simp [serializeList, here, there, pure, Except.pure], ?_⟩
    rw [List.cons.injEq, same, sameItems, doublesOf, List.forall_mem_append]

theorem RereadItems.list (more : RereadItems items stored back) :
    Reread (.list items) (.list stored) (.list back) where
  read := map_ok.2 ⟨back, more.read, rfl⟩
  prints := (sameIff_array more.prints).mono fun _ _ => trivial
  segment := sameIff_array more.prints
  again := by
    obtain ⟨stored', there, same⟩ := more.again
    exact ⟨_, map_ok.2 ⟨stored', there, rfl⟩, by simpa [doubles] using same⟩

theorem RereadFields.nil : RereadFields [] [] [] := ⟨rfl, .nil, [], rfl, by simp [doublesIn]⟩

theorem RereadFields.cons (name : String) (first : Reread v w back)
    (more : RereadFields fields stored others) :
    RereadFields ((name, v) :: fields) ((name, w) :: stored) ((name, back) :: others) where
  read := by simp [WireValue.deserializeFields, first.read, more.read, pure, Except.pure]
  prints := .cons ⟨rfl, first.prints⟩ more.prints
  again := by
    obtain ⟨w', here, same⟩ := first.again
    obtain ⟨stored', there, sameFields⟩ := more.again
    refine ⟨(name, w') :: stored', by simp [serializeFields, here, there, pure, Except.pure], ?_⟩
    rw [List.cons.injEq, Prod.mk.injEq, eq_self, true_and, same, sameFields, doublesIn,
      List.forall_mem_append]

theorem RereadFields.map (more : RereadFields fields stored back) :
    Reread (.map fields) (.map stored) (.map back) where
  read := map_ok.2 ⟨back, more.read, rfl⟩
  prints := (sameIff_object more.prints).mono fun _ _ => trivial
  segment := sameIff_object more.prints
  again := by
    obtain ⟨stored', there, same⟩ := more.again
    exact ⟨_, map_ok.2 ⟨stored', there, rfl⟩, by simpa [doubles] using same⟩

theorem rereadMembers {items : List Value} (done : memberTexts items = .ok texts) :
    ∃ back, RereadMembers items texts back := by
  induction items generalizing texts with
  | nil => cases done; exact ⟨_, .nil⟩
  | cons v rest ih =>
    simp only [memberTexts, bind_ok, pure_ok] at done
    obtain ⟨text, here, others, there, rfl⟩ := done
    obtain ⟨first, number⟩ := rereadNumber_member here
    obtain ⟨more, members⟩ := ih there
    exact ⟨_, .cons number members⟩

mutual

/-- Whatever can be stored is read back. -/
theorem reread : ∀ {v : Value} {w : WireValue}, v.serialize = .ok w → ∃ back, Reread v w back
  | .null, _, done => by cases done; exact ⟨_, .itself rfl rfl rfl⟩
  | .bool _, _, done => by cases done; exact ⟨_, .itself rfl rfl rfl⟩
  | .int n, _, done => by cases done; exact ⟨_, .itself rfl rfl (ofNumberText_toString n)⟩
  | .string _, _, done => by cases done; exact ⟨_, .itself rfl rfl rfl⟩
  | .bytes _, _, done => by cases done; exact ⟨_, .itself rfl rfl rfl⟩
  | .stringSet _, _, done => by cases done; exact ⟨_, .itself rfl rfl rfl⟩
  | .binarySet _, _, done => by cases done; exact ⟨_, .itself rfl rfl rfl⟩
  | .float x, _, done => by
    obtain ⟨text, written, rfl⟩ := map_ok.1 done
    obtain ⟨back, number⟩ := rereadNumber_float written
    exact ⟨back, number.value written⟩
  | .list items, _, done => by
    obtain ⟨stored, written, rfl⟩ := map_ok.1 done
    obtain ⟨back, more⟩ := rereadItems written
    exact ⟨_, more.list⟩
  | .map fields, _, done => by
    obtain ⟨stored, written, rfl⟩ := map_ok.1 done
    obtain ⟨back, more⟩ := rereadFields written
    exact ⟨_, more.map⟩
  | .numberSet items, _, done => by
    obtain ⟨texts, written, rfl⟩ := map_ok.1 done
    obtain ⟨back, more⟩ := rereadMembers written
    exact ⟨_, more.numberSet⟩

theorem rereadItems : ∀ {items : List Value} {stored : List WireValue},
    serializeList items = .ok stored → ∃ back, RereadItems items stored back
  | [], _, done => by cases done; exact ⟨_, .nil⟩
  | v :: rest, _, done => by
    simp only [serializeList, bind_ok, pure_ok] at done
    obtain ⟨w, here, others, there, rfl⟩ := done
    obtain ⟨first, value⟩ := reread here
    obtain ⟨more, items⟩ := rereadItems there
    exact ⟨_, .cons value items⟩

theorem rereadFields : ∀ {fields : List (String × Value)} {stored : List (String × WireValue)},
    serializeFields fields = .ok stored → ∃ back, RereadFields fields stored back
  | [], _, done => by cases done; exact ⟨_, .nil⟩
  | (name, v) :: rest, _, done => by
    simp only [serializeFields, bind_ok, pure_ok] at done
    obtain ⟨w, here, others, there, rfl⟩ := done
    obtain ⟨first, value⟩ := reread here
    obtain ⟨more, fields⟩ := rereadFields there
    exact ⟨_, .cons name value fields⟩

end

end Value

end WideColumn
