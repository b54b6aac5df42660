import WideColumn.Proofs.Json.Sorted
import WideColumn.Proofs.Text.Base64
import WideColumn.WireValue.Json

/-! The documents of attribute values, as a grammar. `Json.Attribute` says which trees they are:
one field, named for a type, with contents of the shape of that type, all the way down. Reading
succeeds on these trees and no others, and yields the value that the tree was written from, up
to the order of the fields of maps. -/
namespace WideColumn

open Outcome

/-- The trees of attribute values. -/
inductive Json.Attribute : Json → Prop where
  | string (text : String) : Attribute (.object [("S", .string text)])
  | number (text : String) : Attribute (.object [("N", .string text)])
  | binary (bytes : List UInt8) : Attribute (.object [("B", WireValue.encodeBytes bytes)])
  | stringSet (texts : List String) : Attribute (.object [("SS", .array (texts.map .string))])
  | numberSet (texts : List String) : Attribute (.object [("NS", .array (texts.map .string))])
  | binarySet (items : List (List UInt8)) :
    Attribute (.object [("BS", .array (items.map WireValue.encodeBytes))])
  | bool (b : Bool) : Attribute (.object [("BOOL", .bool b)])
  | null (flag : Bool) : Attribute (.object [("NULL", .bool flag)])
  | list (items : List Json) : (∀ j ∈ items, Attribute j) → Attribute (.object [("L", .array items)])
  | map (fields : List (String × Json)) : (∀ field ∈ fields, Attribute field.2) →
    Attribute (.object [("M", .object fields)])

theorem Json.document_inj {j k : Json} (same : j.document = k.document) : j = k := by
  have found := congrArg Document.json? same
  rw [json?_document, json?_document] at found
  exact Option.some.inj found

namespace WireValue

mutual

/-- The fields of every map stand in order of name, as maps do in this library. -/
def Ordered : WireValue → Prop
  | .list items => OrderedItems items
  | .map fields => Entries.Ordered fields ∧ OrderedFields fields
  | _ => True

def OrderedItems : List WireValue → Prop
  | [] => True
  | item :: rest => item.Ordered ∧ OrderedItems rest

def OrderedFields : List (String × WireValue) → Prop
  | [] => True
  | (_, value) :: rest => value.Ordered ∧ OrderedFields rest

end

theorem encodeList_eq_map (items : List WireValue) : encodeList items = items.map encode := by
  induction items with
  | nil => rfl
  | cons item rest ih => rw [encodeList, ih, List.map_cons]

theorem encodeFields_eq_mapValues (fields : List (String × WireValue)) :
    encodeFields fields = Entries.mapValues encode fields := by
  induction fields with
  | nil => rfl
  | cons field rest ih => rw [encodeFields, ih]; rfl

/-! ## Contents without parts -/

theorem decodeText_ok {d : Document} : decodeText d = .ok text ↔ d = .string text := by
  cases d <;> simp [decodeText, JsonForm.decode]

theorem decodeFlag_ok {d : Document} : (JsonForm.decode d : Except FormError Bool) = .ok b ↔
    d = .bool b := by
  cases d <;> simp [JsonForm.decode]

theorem decodeTexts_ok {d : Document} :
    decodeTexts d = .ok texts ↔ d = .array (texts.map .string) := by
  have items : ∀ (ds : List Document) (texts : List String),
      JsonForm.decodeList ds = .ok texts ↔ ds = texts.map .string := by
    intro ds
    induction ds with
    | nil => intro texts; cases texts <;> simp [JsonForm.decodeList]
    | cons d rest ih =>
      intro texts
      simp only [JsonForm.decodeList, bind_ok, pure_ok, ih]
      constructor
      · rintro ⟨text, htext, others, rfl, rfl⟩
        rw [List.map_cons, decodeText_ok.1 htext]
      · intro same
        cases texts with
        | nil => cases same
        | cons text others =>
          obtain ⟨rfl, rfl⟩ := List.cons.inj same
          exact ⟨text, rfl, others, rfl, rfl⟩
  cases d <;> simp [decodeTexts, JsonForm.decode, items]

/-- Text in base 64 is read only in its one form. -/
theorem decodeBytes_ok : decodeBytes text = .ok bytes ↔
    text = String.ofList (Text.Base64.encode bytes) := by
  have read : decodeBytes text = .ok bytes ↔ Text.Base64.decode? text.toList = some bytes := by
    unfold decodeBytes
    cases Text.Base64.decode? text.toList <;> simp
  rw [read, Text.Base64.decode?_eq_some_iff, ← String.toList_inj, String.toList_ofList]

theorem decodeAllBytes_ok {texts : List String} {items : List (List UInt8)} :
    texts.mapM decodeBytes = .ok items ↔
      texts = items.map fun bytes => String.ofList (Text.Base64.encode bytes) := by
  induction texts generalizing items with
  | nil => cases items <;> simp [List.mapM_nil, pure_ok]
  | cons text rest ih =>
    simp only [List.mapM_cons, bind_ok, pure_ok, ih, decodeBytes_ok]
    constructor
    · rintro ⟨bytes, rfl, others, rfl, rfl⟩
      rfl
    · intro same
      cases items with
      | nil => cases same
      | cons bytes others =>
        obtain ⟨rfl, rfl⟩ := List.cons.inj same
        exact ⟨bytes, rfl, others, rfl, rfl⟩

theorem alone_ok {w w' : WireValue} {rest : List (Option String × Document)} :
    alone w rest = .ok w' ↔ rest = [] ∧ w = w' := by
  fun_cases alone w rest <;> simp

theorem documentItems_strings (texts : List String) :
    Json.documentItems (texts.map .string) = texts.map .string := by
  induction texts with
  | nil => rfl
  | cons text rest ih => simp [Json.documentItems, Json.document, ih]

theorem encodeBytes_eq_strings (items : List (List UInt8)) :
    items.map encodeBytes =
      (items.map fun bytes => String.ofList (Text.Base64.encode bytes)).map .string := by
  simp [encodeBytes]

/-! ## What is read was written -/

/-- What is read from the parts of an array or object was written as these parts. -/
structure PartsWritten (d : Document) : Prop where
  items : ∀ items values, d = .array items → decodeList items = .ok values →
    ∃ parts : List Json, items = Json.documentItems parts ∧ (∀ j ∈ parts, j.Attribute) ∧
      parts.map Json.sorted = values.map encode
  fields : ∀ fields values, d = .object fields → decodeFields fields = .ok values →
    ∃ parts : List (String × Json), fields = Json.documentFields parts ∧
      (∀ field ∈ parts, field.2.Attribute) ∧
      Entries.mapValues Json.sorted parts = Entries.mapValues encode values

theorem sorted_single (name : String) (j : Json) :
    (Json.object [(name, j)]).sorted = .object [(name, j.sorted)] := rfl

/-- One lemma for the ten types: the type decides the shape of the contents. -/
theorem written_of_decodePayload {payload : Document} (parts : PartsWritten payload)
    (done : decodePayload name payload = .ok w) :
    ∃ j : Json, payload = j.document ∧ (Json.object [(name, j)]).Attribute ∧
      (Json.object [(name, j)]).sorted = w.encode := by
  unfold decodePayload at done
  split at done
  · obtain ⟨text, htext, rfl⟩ := map_ok.1 done
    exact ⟨.string text, decodeText_ok.1 htext, .string text, rfl⟩
  · obtain ⟨text, htext, rfl⟩ := map_ok.1 done
    exact ⟨.string text, decodeText_ok.1 htext, .number text, rfl⟩
  · obtain ⟨text, htext, done⟩ := bind_ok.1 done
    obtain ⟨bytes, hbytes, rfl⟩ := map_ok.1 done
    obtain rfl := decodeBytes_ok.1 hbytes
    exact ⟨encodeBytes bytes, decodeText_ok.1 htext, .binary bytes, rfl⟩
  · obtain ⟨texts, htexts, rfl⟩ := map_ok.1 done
    refine ⟨.array (texts.map .string), ?_, .stringSet texts, ?_⟩
    · rw [decodeTexts_ok.1 htexts, Json.document, documentItems_strings]
    · rw [sorted_single, Json.sorted_eq_strings.2 rfl, encode]
  · obtain ⟨texts, htexts, rfl⟩ := map_ok.1 done
    refine ⟨.array (texts.map .string), ?_, .numberSet texts, ?_⟩
    · rw [decodeTexts_ok.1 htexts, Json.document, documentItems_strings]
    · rw [sorted_single, Json.sorted_eq_strings.2 rfl, encode]
  · obtain ⟨texts, htexts, done⟩ := bind_ok.1 done
    obtain ⟨items, hitems, rfl⟩ := map_ok.1 done
    obtain rfl := decodeAllBytes_ok.1 hitems
    refine ⟨.array (items.map encodeBytes), ?_, .binarySet items, ?_⟩
    · rw [decodeTexts_ok.1 htexts, encodeBytes_eq_strings, Json.document, documentItems_strings]
    · rw [sorted_single, encode, encodeBytes_eq_strings, Json.sorted_eq_strings.2 rfl]
  · obtain ⟨b, hb, rfl⟩ := map_ok.1 done
    exact ⟨.bool b, decodeFlag_ok.1 hb, .bool b, rfl⟩
  · obtain ⟨flag, hflag, rfl⟩ := map_ok.1 done
    exact ⟨.bool flag, decodeFlag_ok.1 hflag, .null flag, rfl⟩
  · next items =>
    obtain ⟨values, hvalues, rfl⟩ := map_ok.1 done
    obtain ⟨written, rfl, grammar, same⟩ := parts.items items values rfl hvalues
    refine ⟨.array written, rfl, .list written grammar, ?_⟩
    rw [sorted_single, encode, encodeList_eq_map, ← same, Json.sorted, Json.sortedItems_eq_map]
  · cases done
  · next fields =>
    obtain ⟨values, hvalues, rfl⟩ := map_ok.1 done
    obtain ⟨written, rfl, grammar, same⟩ := parts.fields fields values rfl hvalues
    refine ⟨.object written, rfl, .map written grammar, ?_⟩
    rw [sorted_single, encode, encodeFields_eq_mapValues, Entries.mapValues_ofList, ← same,
      Json.sorted, Json.sortedFields_eq_mapValues]
  · cases done
  · cases done

mutual

theorem written_of_decode : ∀ {d : Document} {w : WireValue}, decode d = .ok w →
    ∃ j : Json, d = j.document ∧ j.Attribute ∧ j.sorted = w.encode
  | .object ((some name, payload) :: rest), w, done => by
    simp only [decode, bind_ok, alone_ok] at done
    obtain ⟨value, hpayload, rfl, rfl⟩ := done
    obtain ⟨j, rfl, grammar, same⟩ := written_of_decodePayload (partsWritten payload) hpayload
    exact ⟨.object [(name, j)], rfl, grammar, same⟩
  | .object [], _, done => by cases done
  | .object ((none, _) :: _), _, done => by cases done
  | .null, _, done | .bool _, _, done | .integer _, _, done | .float _, _, done
  | .string _, _, done | .array _, _, done | .beyond _, _, done => by simp [decode] at done

theorem partsWritten : ∀ d : Document, PartsWritten d
  | .array items => ⟨fun _ _ same done => by cases same; exact written_of_decodeList done, nofun⟩
  | .object fields => ⟨nofun, fun _ _ same done => by cases same; exact written_of_decodeFields done⟩
  | .null | .bool _ | .integer _ | .float _ | .string _ | .beyond _ => ⟨nofun, nofun⟩

theorem written_of_decodeList : ∀ {items : List Document} {values : List WireValue},
    decodeList items = .ok values →
    ∃ parts : List Json, items = Json.documentItems parts ∧ (∀ j ∈ parts, j.Attribute) ∧
      parts.map Json.sorted = values.map encode
  | [], _, done => by cases done; exact ⟨[], rfl, by simp, rfl⟩
  | item :: rest, _, done => by
    simp only [decodeList, bind_ok, pure_ok] at done
    obtain ⟨value, hvalue, others, hothers, rfl⟩ := done
    obtain ⟨j, rfl, grammar, same⟩ := written_of_decode hvalue
    obtain ⟨parts, rfl, grammars, sames⟩ := written_of_decodeList hothers
    exact ⟨j :: parts, rfl, List.forall_mem_cons.2 ⟨grammar, grammars⟩, by simp [same, sames]⟩

theorem written_of_decodeFields : ∀ {fields : List (Option String × Document)}
    {values : List (String × WireValue)}, decodeFields fields = .ok values →
    ∃ parts : List (String × Json), fields = Json.documentFields parts ∧
      (∀ field ∈ parts, field.2.Attribute) ∧
      Entries.mapValues Json.sorted parts = Entries.mapValues encode values
  | [], _, done => by cases done; exact ⟨[], rfl, by simp, rfl⟩
  | (none, _) :: _, _, done => by cases done
  | (some name, d) :: rest, _, done => by
    simp only [decodeFields, bind_ok, pure_ok] at done
    obtain ⟨value, hvalue, others, hothers, rfl⟩ := done
    obtain ⟨j, rfl, grammar, same⟩ := written_of_decode hvalue
    obtain ⟨parts, rfl, grammars, sames⟩ := written_of_decodeFields hothers
    refine ⟨(name, j) :: parts, rfl, List.forall_mem_cons.2 ⟨grammar, grammars⟩, ?_⟩
    simp only [Entries.mapValues, List.map_cons, same] at sames ⊢
    rw [sames]

end

/-! ## What is written is read -/

theorem decode_single (name : String) (j : Json) :
    decode (Json.object [(name, j)]).document = decodePayload name j.document := by
  simp only [Json.document, Json.documentFields, decode]
  cases decodePayload name j.document <;> rfl

theorem decodeTexts_strings (texts : List String) :
    decodeTexts (Json.array (texts.map .string)).document = .ok texts := by
  rw [decodeTexts_ok, Json.document, documentItems_strings]

theorem decodeList_of_all {items : List Json} (all : ∀ j ∈ items, ∃ w, decode j.document = .ok w) :
    ∃ values, decodeList (Json.documentItems items) = .ok values := by
  induction items with
  | nil => exact ⟨[], rfl⟩
  | cons j rest ih =>
    obtain ⟨here, there⟩ := List.forall_mem_cons.1 all
    obtain ⟨value, hvalue⟩ := here
    obtain ⟨values, hvalues⟩ := ih there
    refine ⟨value :: values, ?_⟩
    simp only [Json.documentItems, decodeList, bind_ok, pure_ok]
    exact ⟨value, hvalue, values, hvalues, rfl⟩

theorem decodeFields_of_all {fields : List (String × Json)}
    (all : ∀ field ∈ fields, ∃ w, decode field.2.document = .ok w) :
    ∃ values, decodeFields (Json.documentFields fields) = .ok values := by
  induction fields with
  | nil => exact ⟨[], rfl⟩
  | cons field rest ih =>
    obtain ⟨name, j⟩ := field
    obtain ⟨here, there⟩ := List.forall_mem_cons.1 all
    obtain ⟨value, hvalue⟩ := here
    obtain ⟨values, hvalues⟩ := ih there
    refine ⟨(name, value) :: values, ?_⟩
    simp only [Json.documentFields, decodeFields, bind_ok, pure_ok]
    exact ⟨value, hvalue, values, hvalues, rfl⟩

theorem decode_of_grammar {j : Json} (grammar : j.Attribute) : ∃ w, decode j.document = .ok w := by
  induction grammar with
  | string text => exact ⟨.string text, rfl⟩
  | number text => exact ⟨.number text, rfl⟩
  | bool b => exact ⟨.bool b, rfl⟩
  | null flag => exact ⟨.null flag, rfl⟩
  | binary bytes =>
    refine ⟨.binary bytes, (decode_single _ _).trans (bind_ok.2 ⟨_, rfl, ?_⟩)⟩
    exact map_ok.2 ⟨bytes, decodeBytes_ok.2 rfl, rfl⟩
  | stringSet texts =>
    exact ⟨.stringSet texts, (decode_single _ _).trans
      (map_ok.2 ⟨texts, decodeTexts_strings texts, rfl⟩)⟩
  | numberSet texts =>
    exact ⟨.numberSet texts, (decode_single _ _).trans
      (map_ok.2 ⟨texts, decodeTexts_strings texts, rfl⟩)⟩
  | binarySet items =>
    have read := decodeTexts_strings
      (items.map fun bytes => String.ofList (Text.Base64.encode bytes))
    rw [← encodeBytes_eq_strings] at read
    exact ⟨.binarySet items, (decode_single _ _).trans
      (bind_ok.2 ⟨_, read, map_ok.2 ⟨items, decodeAllBytes_ok.2 rfl, rfl⟩⟩)⟩
  | list items _ ih =>
    obtain ⟨values, hvalues⟩ := decodeList_of_all ih
    exact ⟨.list values, (decode_single _ _).trans (map_ok.2 ⟨values, hvalues, rfl⟩)⟩
  | map fields _ ih =>
    obtain ⟨values, hvalues⟩ := decodeFields_of_all ih
    exact ⟨_, (decode_single _ _).trans (map_ok.2 ⟨values, hvalues, rfl⟩)⟩

mutual

theorem encode_grammar : ∀ w : WireValue, w.encode.Attribute
  | .string text => .string text
  | .number text => .number text
  | .binary bytes => .binary bytes
  | .stringSet texts => .stringSet texts
  | .numberSet texts => .numberSet texts
  | .binarySet items => .binarySet items
  | .bool b => .bool b
  | .null flag => .null flag
  | .list items => .list _ (encodeList_grammar items)
  | .map fields => .map _ (encodeFields_grammar fields)

theorem encodeList_grammar : ∀ items : List WireValue, ∀ j ∈ encodeList items, j.Attribute
  | [] => by simp [encodeList]
  | item :: rest => List.forall_mem_cons.2 ⟨encode_grammar item, encodeList_grammar rest⟩

theorem encodeFields_grammar : ∀ fields : List (String × WireValue),
    ∀ field ∈ encodeFields fields, field.2.Attribute
  | [] => by simp [encodeFields]
  | (_, value) :: rest => List.forall_mem_cons.2 ⟨encode_grammar value, encodeFields_grammar rest⟩

end

/-- Moving fields about makes no attribute value of a tree that is none. -/
theorem grammar_of_sorted {k : Json} (grammar : k.Attribute) {j : Json} (distinct : j.namesDistinct)
    (same : j.sorted = k) : j.Attribute := by
  induction grammar generalizing j with
  | string text =>
    obtain ⟨part, rfl, hpart, -⟩ := Json.sorted_eq_single distinct same
    rw [Json.sorted_eq_string.1 hpart]
    exact .string text
  | number text =>
    obtain ⟨part, rfl, hpart, -⟩ := Json.sorted_eq_single distinct same
    rw [Json.sorted_eq_string.1 hpart]
    exact .number text
  | binary bytes =>
    obtain ⟨part, rfl, hpart, -⟩ := Json.sorted_eq_single distinct same
    rw [Json.sorted_eq_string.1 hpart]
    exact .binary bytes
  | stringSet texts =>
    obtain ⟨part, rfl, hpart, -⟩ := Json.sorted_eq_single distinct same
    rw [Json.sorted_eq_strings.1 hpart]
    exact .stringSet texts
  | numberSet texts =>
    obtain ⟨part, rfl, hpart, -⟩ := Json.sorted_eq_single distinct same
    rw [Json.sorted_eq_strings.1 hpart]
    exact .numberSet texts
  | binarySet items =>
    obtain ⟨part, rfl, hpart, -⟩ := Json.sorted_eq_single distinct same
    rw [encodeBytes_eq_strings, Json.sorted_eq_strings, ← encodeBytes_eq_strings] at hpart
    exact hpart ▸ .binarySet items
  | bool b =>
    obtain ⟨part, rfl, hpart, -⟩ := Json.sorted_eq_single distinct same
    rw [Json.sorted_eq_bool.1 hpart]
    exact .bool b
  | null flag =>
    obtain ⟨part, rfl, hpart, -⟩ := Json.sorted_eq_single distinct same
    rw [Json.sorted_eq_bool.1 hpart]
    exact .null flag
  | list items _ ih =>
    obtain ⟨part, rfl, hpart, distinctPart⟩ := Json.sorted_eq_single distinct same
    obtain ⟨parts, rfl, rfl⟩ := Json.sorted_eq_array.1 hpart
    refine .list parts fun j member => ?_
    have distinctItem := Json.namesDistinctItems_iff.1 distinctPart j member
    exact ih _ (List.mem_map_of_mem member) distinctItem rfl
  | map fields _ ih =>
    obtain ⟨part, rfl, hpart, distinctPart⟩ := Json.sorted_eq_single distinct same
    obtain ⟨parts, rfl, rfl⟩ := Json.sorted_eq_object.1 hpart
    refine .map parts fun field member => ?_
    have moved : (field.1, field.2.sorted) ∈
        Entries.ofList (Entries.mapValues Json.sorted parts) :=
      (Json.sorted_fields_perm distinctPart).mem_iff.2 (List.mem_map_of_mem member)
    exact ih _ moved ((Json.namesDistinct_object.1 distinctPart).2 field member) rfl

/-! ## Values have their own documents -/

theorem encodeBytes_inj {a b : List UInt8} (same : encodeBytes a = encodeBytes b) : a = b := by
  have texts := String.ofList_injective (Json.string.inj same)
  have read := Text.Base64.decode?_encode a
  rw [texts, Text.Base64.decode?_encode] at read
  exact (Option.some.inj read).symm

mutual

theorem encode_inj : ∀ {v w : WireValue}, v.encode = w.encode → v = w
  | .string _, w, same | .number _, w, same | .bool _, w, same | .null _, w, same => by
    cases w <;> simp_all [encode]
  | .binary _, w, same => by
    cases w <;> simp [encode] at same
    rw [encodeBytes_inj same]
  | .stringSet _, w, same | .numberSet _, w, same => by
    cases w <;> simp [encode] at same
    rw [(List.map_inj_right fun _ _ => Json.string.inj).1 same]
  | .binarySet _, w, same => by
    cases w <;> simp [encode] at same
    rw [(List.map_inj_right fun _ _ => encodeBytes_inj).1 same]
  | .list _, w, same => by
    cases w <;> simp [encode] at same
    rw [encodeList_inj same]
  | .map _, w, same => by
    cases w <;> simp [encode] at same
    rw [encodeFields_inj same]

theorem encodeList_inj : ∀ {vs ws : List WireValue}, encodeList vs = encodeList ws → vs = ws
  | [], ws, same => by cases ws <;> simp_all [encodeList]
  | v :: vs, ws, same => by
    cases ws with
    | nil => simp [encodeList] at same
    | cons w ws =>
      obtain ⟨here, there⟩ := List.cons.inj same
      rw [encode_inj here, encodeList_inj there]

theorem encodeFields_inj : ∀ {vs ws : List (String × WireValue)},
    encodeFields vs = encodeFields ws → vs = ws
  | [], ws, same => by cases ws <;> simp_all [encodeFields]
  | (name, v) :: vs, ws, same => by
    cases ws with
    | nil => simp [encodeFields] at same
    | cons field ws =>
      obtain ⟨other, w⟩ := field
      obtain ⟨field, there⟩ := List.cons.inj same
      obtain ⟨rfl, here⟩ := Prod.mk.inj field
      rw [encode_inj here, encodeFields_inj there]

end

/-! ## The document of a value -/

mutual

theorem namesDistinct_encode : ∀ {w : WireValue}, w.Ordered → w.encode.namesDistinct
  | .list items, ordered => by
    simpa [encode, Json.namesDistinct, Json.namesDistinctFields] using
      namesDistinct_encodeList ordered
  | .map fields, ⟨ordered, each⟩ => by
    have names : ((encodeFields fields).map Prod.fst).Nodup := by
      rw [encodeFields_eq_mapValues, Entries.names_mapValues]
      exact Entries.nodup_of_ordered ordered
    simpa [encode, Json.namesDistinct, Json.namesDistinctFields, names] using
      namesDistinct_encodeFields each
  | .string _, _ | .number _, _ | .binary _, _ | .bool _, _ | .null _, _ => rfl
  | .stringSet texts, _ | .numberSet texts, _ => by
    have items : Json.namesDistinctItems (texts.map .string) :=
      Json.namesDistinctItems_iff.2 (by simp [Json.namesDistinct])
    simp [encode, Json.namesDistinct, Json.namesDistinctFields, items]
  | .binarySet data, _ => by
    have items : Json.namesDistinctItems (data.map encodeBytes) :=
      Json.namesDistinctItems_iff.2 (by simp [encodeBytes, Json.namesDistinct])
    simp [encode, Json.namesDistinct, Json.namesDistinctFields, items]

theorem namesDistinct_encodeList : ∀ {items : List WireValue}, OrderedItems items →
    Json.namesDistinctItems (encodeList items)
  | [], _ => rfl
  | _ :: _, ⟨here, there⟩ => by
    simp [encodeList, Json.namesDistinctItems, namesDistinct_encode here,
      namesDistinct_encodeList there]

theorem namesDistinct_encodeFields : ∀ {fields : List (String × WireValue)}, OrderedFields fields →
    Json.namesDistinctFields (encodeFields fields)
  | [], _ => rfl
  | (_, _) :: _, ⟨here, there⟩ => by
    simp [encodeFields, Json.namesDistinctFields, namesDistinct_encode here,
      namesDistinct_encodeFields there]

end

mutual

theorem sorted_encode : ∀ {w : WireValue}, w.Ordered → w.encode.sorted = w.encode
  | .list items, ordered => by
    rw [encode, sorted_single, Json.sorted, sortedItems_encodeList ordered]
  | .map fields, ⟨ordered, each⟩ => by
    have sortedAlready : Entries.Ordered (encodeFields fields) := by
      rw [encodeFields_eq_mapValues]
      exact Entries.ordered_of_names (Entries.names_mapValues _ _) ordered
    rw [encode, sorted_single, Json.sorted, sortedFields_encodeFields each,
      Entries.ofList_of_ordered sortedAlready]
  | .string _, _ | .number _, _ | .binary _, _ | .bool _, _ | .null _, _ => rfl
  | .stringSet _, _ | .numberSet _, _ => by
    rw [encode, sorted_single, Json.sorted_eq_strings.2 rfl]
  | .binarySet _, _ => by
    rw [encode, sorted_single, encodeBytes_eq_strings, Json.sorted_eq_strings.2 rfl]

theorem sortedItems_encodeList : ∀ {items : List WireValue}, OrderedItems items →
    Json.sortedItems (encodeList items) = encodeList items
  | [], _ => rfl
  | _ :: _, ⟨here, there⟩ => by
    rw [encodeList, Json.sortedItems, sorted_encode here, sortedItems_encodeList there]

theorem sortedFields_encodeFields : ∀ {fields : List (String × WireValue)}, OrderedFields fields →
    Json.sortedFields (encodeFields fields) = encodeFields fields
  | [], _ => rfl
  | (_, _) :: _, ⟨here, there⟩ => by
    rw [encodeFields, Json.sortedFields, sorted_encode here, sortedFields_encodeFields there]

end

theorem decode_document_iff {j : Json} (distinct : j.namesDistinct) :
    decode j.document = .ok w ↔ j.sorted = w.encode := by
  have written : ∀ {w}, decode j.document = .ok w → j.sorted = w.encode := by
    intro w done
    obtain ⟨j', same, -, sorted⟩ := written_of_decode done
    exact Json.document_inj same ▸ sorted
  constructor
  · exact written
  · intro same
    obtain ⟨w', done⟩ := decode_of_grammar (grammar_of_sorted (encode_grammar w) distinct same)
    rw [done, encode_inj ((written done).symm.trans same)]

/-- A tree with distinct names is read as a value exactly when the tree is the document of the
value, up to the order of fields. So every value is read back from its own document, and a
document is refused exactly when it is not the tree of an attribute value. -/
theorem decode_grammar :
    (∀ (j : Json) (w : WireValue), j.namesDistinct →
      (decode j.document = .ok w ↔ j.sorted = w.encode)) ∧
    (∀ w : WireValue, w.Ordered → decode w.encode.document = .ok w) ∧
    (∀ d : Document, (∃ e, decode d = .error e) ↔ ¬∃ j : Json, d = j.document ∧ j.Attribute) := by
  refine ⟨fun j w distinct => decode_document_iff distinct, ?_, ?_⟩
  · intro w ordered
    rw [decode_document_iff (namesDistinct_encode ordered), sorted_encode ordered]
  · intro d
    constructor
    · rintro ⟨e, refused⟩ ⟨j, rfl, grammar⟩
      obtain ⟨w, done⟩ := decode_of_grammar grammar
      rw [refused] at done
      cases done
    · intro outside
      cases done : decode d with
      | error e => exact ⟨e, rfl⟩
      | ok w =>
        obtain ⟨j, same, grammar, -⟩ := written_of_decode done
        exact absurd ⟨j, same, grammar⟩ outside

/-- A map whose fields stand in another order than in its document. -/
def sample : WireValue :=
  .map [("count", .number "3"), ("data", .binary [104, 105]),
    ("tags", .list [.stringSet ["a", "b"], .null true])]

def sampleTree : Json :=
  .object [("M", .object [("tags", .object [("L", .array [
      .object [("SS", .array [.string "a", .string "b"])], .object [("NULL", .bool true)]])]),
    ("count", .object [("N", .string "3")]), ("data", .object [("B", .string "aGk=")])])]

theorem decode_grammar_sample :
    sampleTree.namesDistinct ∧ sample.Ordered ∧ decode sampleTree.document = .ok sample ∧
      decode sample.encode.document = .ok sample ∧
      ∃ e, decode (.object [(some "B", .string "aGl=")]) = .error e := by
  have ordered : sample.Ordered := by
    refine ⟨?_, trivial, trivial, ⟨trivial, trivial, trivial⟩, trivial⟩
    unfold Entries.Ordered
    decide
  refine ⟨rfl, ordered, (decode_grammar.1 sampleTree sample rfl).2 rfl,
    decode_grammar.2.1 sample ordered, (decode_grammar.2.2 _).2 ?_⟩
  rintro ⟨j, same, grammar⟩
  obtain ⟨w, done⟩ := decode_of_grammar grammar
  rw [← same] at done
  cases done

end WireValue

end WideColumn
