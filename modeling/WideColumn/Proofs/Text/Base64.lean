import WideColumn.Text.Base64

/-! Base 64 is strict: reading accepts exactly what writing produces, so bytes have one text.
A group of four symbols is treated first, and the text is then read group by group. -/
namespace WideColumn.Text.Base64

theorem length_alphabet : alphabet.length = 64 := by decide

theorem symbol_eq_getElem {n : Nat} (bound : n < alphabet.length) : symbol n = alphabet[n] := by
  simp [symbol, List.getD, List.getElem?_eq_getElem bound]

theorem nodup_alphabet : alphabet.Nodup := by decide

theorem value?_some {c : Char} {n : Nat} (found : value? c = some n) : n < 64 ∧ symbol n = c := by
  obtain ⟨bound, same, -⟩ := List.findIdx?_eq_some_iff_getElem.1 found
  exact ⟨length_alphabet ▸ bound, by simpa [symbol_eq_getElem bound] using same⟩

theorem value?_symbol {n : Nat} (small : n < 64) : value? (symbol n) = some n := by
  have bound : n < alphabet.length := length_alphabet ▸ small
  rw [symbol_eq_getElem bound, value?, List.findIdx?_eq_some_iff_getElem]
  refine ⟨bound, by simp, fun i before => ?_⟩
  have apart := List.pairwise_iff_getElem.1 nodup_alphabet i n (by omega) bound before
  simpa using apart

theorem symbol_ne_fill {n : Nat} (small : n < 64) : symbol n ≠ '=' := by
  have bound : n < alphabet.length := length_alphabet ▸ small
  have absent : '=' ∉ alphabet := by decide
  rw [symbol_eq_getElem bound]
  intro same
  exact absent (same ▸ List.getElem_mem bound)

theorem ofNat_of_eq {n : Nat} {a : UInt8} (same : n = a.toNat) : UInt8.ofNat n = a := by
  rw [same, UInt8.ofNat_toNat]

/-! ## One group -/

theorem decodeLast?_one (a : UInt8) :
    decodeLast? (symbol (a.toNat / 4)) (symbol (a.toNat % 4 * 16)) '=' '=' = some [a] := by
  have bound := a.toNat_lt
  have first := value?_symbol (n := a.toNat / 4) (by omega)
  have second := value?_symbol (n := a.toNat % 4 * 16) (by omega)
  have spare : a.toNat % 4 * 16 % 16 = 0 := by omega
  have whole : UInt8.ofNat (a.toNat / 4 * 4 + a.toNat % 4 * 16 / 16) = a :=
    ofNat_of_eq (by omega)
  simp only [decodeLast?, first, second, spare, whole, Option.bind_eq_bind, Option.bind_some,
    and_self, if_true]

theorem decodeLast?_two (a b : UInt8) :
    decodeLast? (symbol (a.toNat / 4)) (symbol (a.toNat % 4 * 16 + b.toNat / 16))
      (symbol (b.toNat % 16 * 4)) '=' = some [a, b] := by
  have boundA := a.toNat_lt
  have boundB := b.toNat_lt
  have first := value?_symbol (n := a.toNat / 4) (by omega)
  have second := value?_symbol (n := a.toNat % 4 * 16 + b.toNat / 16) (by omega)
  have third := value?_symbol (n := b.toNat % 16 * 4) (by omega)
  have solid := symbol_ne_fill (n := b.toNat % 16 * 4) (by omega)
  have spare : b.toNat % 16 * 4 % 4 = 0 := by omega
  have wholeA : UInt8.ofNat (a.toNat / 4 * 4 + (a.toNat % 4 * 16 + b.toNat / 16) / 16) = a :=
    ofNat_of_eq (by omega)
  have wholeB : UInt8.ofNat ((a.toNat % 4 * 16 + b.toNat / 16) % 16 * 16 +
      b.toNat % 16 * 4 / 4) = b :=
    ofNat_of_eq (by omega)
  simp only [decodeLast?, first, second, third, solid, spare, wholeA, wholeB, Option.bind_eq_bind,
    Option.bind_some, if_true, if_false]

theorem decodeLast?_three (a b c : UInt8) :
    decodeLast? (symbol (a.toNat / 4)) (symbol (a.toNat % 4 * 16 + b.toNat / 16))
      (symbol (b.toNat % 16 * 4 + c.toNat / 64)) (symbol (c.toNat % 64)) = some [a, b, c] := by
  have boundA := a.toNat_lt
  have boundB := b.toNat_lt
  have boundC := c.toNat_lt
  have first := value?_symbol (n := a.toNat / 4) (by omega)
  have second := value?_symbol (n := a.toNat % 4 * 16 + b.toNat / 16) (by omega)
  have third := value?_symbol (n := b.toNat % 16 * 4 + c.toNat / 64) (by omega)
  have fourth := value?_symbol (n := c.toNat % 64) (by omega)
  have solid := symbol_ne_fill (n := b.toNat % 16 * 4 + c.toNat / 64) (by omega)
  have solid' := symbol_ne_fill (n := c.toNat % 64) (by omega)
  have wholeA : UInt8.ofNat (a.toNat / 4 * 4 + (a.toNat % 4 * 16 + b.toNat / 16) / 16) = a :=
    ofNat_of_eq (by omega)
  have wholeB : UInt8.ofNat ((a.toNat % 4 * 16 + b.toNat / 16) % 16 * 16 +
      (b.toNat % 16 * 4 + c.toNat / 64) / 4) = b :=
    ofNat_of_eq (by omega)
  have wholeC : UInt8.ofNat ((b.toNat % 16 * 4 + c.toNat / 64) % 4 * 64 + c.toNat % 64) = c :=
    ofNat_of_eq (by omega)
  simp only [decodeLast?, first, second, third, fourth, solid, solid', wholeA, wholeB, wholeC,
    Option.bind_eq_bind, Option.bind_some, if_false]

/-- A group that is read was written from the bytes it is read as. -/
theorem eq_encode_of_decodeLast? {s t u v : Char} {bytes : List UInt8}
    (read : decodeLast? s t u v = some bytes) : [s, t, u, v] = encode bytes := by
  simp only [decodeLast?, Option.bind_eq_bind, Option.bind_eq_some_iff] at read
  obtain ⟨m, hm, n, hn, read⟩ := read
  obtain ⟨boundM, rfl⟩ := value?_some hm
  obtain ⟨boundN, rfl⟩ := value?_some hn
  have byteA : (UInt8.ofNat (m * 4 + n / 16)).toNat = m * 4 + n / 16 :=
    UInt8.toNat_ofNat_of_lt' (by simp only [UInt8.size]; omega)
  have first : (m * 4 + n / 16) / 4 = m := by omega
  by_cases fillU : u = '='
  · rw [if_pos fillU, Option.ite_none_right_eq_some] at read
    obtain ⟨⟨fillV, spare⟩, read⟩ := read
    obtain rfl := Option.some.inj read
    have second : (m * 4 + n / 16) % 4 * 16 = n := by omega
    simp only [encode, byteA, first, second, fillU, fillV]
  rw [if_neg fillU, Option.bind_eq_some_iff] at read
  obtain ⟨k, hk, read⟩ := read
  obtain ⟨boundK, rfl⟩ := value?_some hk
  have byteB : (UInt8.ofNat (n % 16 * 16 + k / 4)).toNat = n % 16 * 16 + k / 4 :=
    UInt8.toNat_ofNat_of_lt' (by simp only [UInt8.size]; omega)
  have second : (m * 4 + n / 16) % 4 * 16 + (n % 16 * 16 + k / 4) / 16 = n := by omega
  by_cases fillV : v = '='
  · rw [if_pos fillV, Option.ite_none_right_eq_some] at read
    obtain ⟨spare, read⟩ := read
    obtain rfl := Option.some.inj read
    have third : (n % 16 * 16 + k / 4) % 16 * 4 = k := by omega
    simp only [encode, byteA, byteB, first, second, third, fillV]
  · rw [if_neg fillV, Option.bind_eq_some_iff] at read
    obtain ⟨l, hl, read⟩ := read
    obtain ⟨boundL, rfl⟩ := value?_some hl
    obtain rfl := Option.some.inj read
    have byteC : (UInt8.ofNat (k % 4 * 64 + l)).toNat = k % 4 * 64 + l :=
      UInt8.toNat_ofNat_of_lt' (by simp only [UInt8.size]; omega)
    have third : (n % 16 * 16 + k / 4) % 16 * 4 + (k % 4 * 64 + l) / 64 = k := by omega
    have fourth : (k % 4 * 64 + l) % 64 = l := by omega
    simp only [encode, byteA, byteB, byteC, first, second, third, fourth]

/-! ## Whole texts -/

theorem encode_eq_nil {bytes : List UInt8} : encode bytes = [] ↔ bytes = [] := by
  fun_cases encode bytes <;> simp

theorem encode_append {group : List UInt8} (length : group.length = 3) (rest : List UInt8) :
    encode (group ++ rest) = encode group ++ encode rest := by
  match group, length with
  | [a, b, c], _ => simp [encode]

theorem decode?_encode (bytes : List UInt8) : decode? (encode bytes) = some bytes := by
  fun_induction encode bytes with
  | case1 => rfl
  | case2 a => exact decodeLast?_one a
  | case3 a b => exact decodeLast?_two a b
  | case4 a b c rest ih =>
    cases more : encode rest with
    | nil =>
      obtain rfl := encode_eq_nil.1 more
      exact decodeLast?_three a b c
    | cons d others =>
      rw [more] at ih
      have whole : [a, b, c].length = 3 := rfl
      rw [decode?, decodeLast?_three, Option.bind_eq_bind, Option.bind_some, if_pos whole, ih]
      · rfl
      · simp

theorem eq_encode_of_decode? {text : List Char} {bytes : List UInt8}
    (read : decode? text = some bytes) : text = encode bytes := by
  fun_induction decode? text generalizing bytes with
  | case1 => obtain rfl := Option.some.inj read; rfl
  | case2 s t u v => exact eq_encode_of_decodeLast? read
  | case3 s t u v rest more ih =>
    obtain ⟨group, hgroup, read⟩ := Option.bind_eq_some_iff.1 read
    rw [Option.ite_none_right_eq_some] at read
    obtain ⟨whole, read⟩ := read
    obtain ⟨others, hothers, read⟩ := Option.bind_eq_some_iff.1 read
    obtain rfl := Option.some.inj read
    rw [encode_append whole, ← eq_encode_of_decodeLast? hgroup, ← ih hothers]
    rfl
  | case4 => cases read

theorem decode?_eq_some_iff {text : List Char} {bytes : List UInt8} :
    decode? text = some bytes ↔ text = encode bytes := by
  constructor
  · exact eq_encode_of_decode?
  · rintro rfl
    exact decode?_encode bytes

end WideColumn.Text.Base64
