import SealedDrive.Json.Octets

/-!
The octets of a text read as the text does. The octets of one character are never the start of
those of another, so the first character of an octet string is found whatever follows it.
-/

namespace SealedDrive

namespace Bytes

theorem ofText_ofList_cons (c : Char) (chars : List Char) :
    ofText (String.ofList (c :: chars)) =
      String.utf8EncodeChar c ++ ofText (String.ofList chars) := by
  simp only [ofText, String.toUTF8, String.toByteArray_ofList]
  rw [List.utf8Encode_cons, List.utf8Encode_singleton]
  simp

/-- Where the octets of two characters start the same octet string, it is one character. -/
theorem letter_unique {c d : Char} {rest others : Bytes}
    (h : String.utf8EncodeChar c ++ rest = String.utf8EncodeChar d ++ others) : c = d := by
  have decoded (e : Char) (bytes : Bytes) :
      (String.utf8EncodeChar e ++ bytes).toByteArray.utf8DecodeChar? 0 = some e := by
    rw [List.toByteArray_append]
    exact ByteArray.utf8DecodeChar?_utf8EncodeChar_append
  have hc := decoded c rest
  rw [h, decoded d others] at hc
  exact (Option.some.inj hc).symm

theorem text?_utf8EncodeChar (c : Char) :
    (text? (String.utf8EncodeChar c)).map String.toList = some [c] := by
  have h : ofText (String.ofList [c]) = String.utf8EncodeChar c := by
    rw [ofText_ofList_cons]
    simp [ofText]
  rw [← h, text?_ofText, Option.map_some, String.toList_ofList]

theorem eq_utf8EncodeChar_of_text? {bytes : Bytes} {c : Char}
    (h : (text? bytes).map String.toList = some [c]) : bytes = String.utf8EncodeChar c := by
  obtain ⟨text, htext, hchars⟩ := Option.map_eq_some_iff.1 h
  rw [← ofText_of_text? htext, ← String.ofList_toList (s := text), hchars, ofText_ofList_cons]
  simp [ofText]

end Bytes

namespace Json

theorem firstLetter?_append (c : Char) (rest : Bytes) :
    firstLetter? (String.utf8EncodeChar c ++ rest) = some (c, c.utf8Size) := by
  have hit : (Bytes.text? ((String.utf8EncodeChar c ++ rest).take c.utf8Size)).map String.toList =
      some [c] := by
    rw [List.take_left' (String.length_utf8EncodeChar c)]
    exact Bytes.text?_utf8EncodeChar c
  -- Fewer octets are no character: it would have to be the same one, which has more.
  have miss (count : Nat) (hcount : count < c.utf8Size) (d : Char) :
      (Bytes.text? ((String.utf8EncodeChar c ++ rest).take count)).map String.toList ≠
        some [d] := by
    intro h
    have hd := Bytes.eq_utf8EncodeChar_of_text? h
    have whole := List.take_append_drop count (String.utf8EncodeChar c ++ rest)
    rw [hd] at whole
    obtain rfl := Bytes.letter_unique whole
    have hlength := congrArg List.length hd
    rw [List.length_take, List.length_append, String.length_utf8EncodeChar] at hlength
    omega
  have order : ∃ before after, [1, 2, 3, 4] = before ++ c.utf8Size :: after ∧
      ∀ count ∈ before, count < c.utf8Size := by
    obtain h | h | h | h := Char.utf8Size_eq c <;> rw [h]
    · exact ⟨[], [2, 3, 4], rfl, by decide⟩
    · exact ⟨[1], [3, 4], rfl, by decide⟩
    · exact ⟨[1, 2], [4], rfl, by decide⟩
    · exact ⟨[1, 2, 3], [], rfl, by decide⟩
  obtain ⟨before, after, horder, hbefore⟩ := order
  refine List.findSome?_eq_some_iff.2
    ⟨before, c.utf8Size, after, horder, ?_, fun count hcount => ?_⟩
  · rw [hit]
  · split
    case h_1 d h => exact absurd h (miss count (hbefore count hcount) d)
    case h_2 => rfl

/-- The octets of a text give its characters, wherever a reader of escapes stands. -/
theorem lettersFor_ofText (chars : List Char) {fuel : Nat} (escaping : Bool)
    (h : (Bytes.ofText (String.ofList chars)).length ≤ fuel) :
    lettersFor fuel escaping (Bytes.ofText (String.ofList chars)) = some chars := by
  induction chars generalizing fuel escaping with
  | nil => cases fuel <;> rfl
  | cons c chars ih =>
    have hsize := c.utf8Size_pos
    have hcut := String.length_utf8EncodeChar c
    rw [Bytes.ofText_ofList_cons] at h ⊢
    rw [List.length_append, hcut] at h
    obtain ⟨fuel, rfl⟩ : ∃ n, fuel = n + 1 := ⟨fuel - 1, by omega⟩
    rw [lettersFor, firstLetter?_append]
    · dsimp only
      rw [List.drop_left' hcut, ih _ (by omega)]
      rfl
    · intro hnil
      have hlength := congrArg List.length hnil
      rw [List.length_append, hcut] at hlength
      simp at hlength
      omega

/-- Reading the octets of a text is reading the text. -/
theorem ofBytes?_ofText (text : String) : ofBytes? (Bytes.ofText text) = read? text := by
  have h := lettersFor_ofText text.toList false (Nat.le_refl _)
  rw [String.ofList_toList] at h
  rw [ofBytes?, h, Option.bind_some, read?]

end Json
end SealedDrive
