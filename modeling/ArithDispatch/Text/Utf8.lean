/-! Texts in UTF-8, decoded by a reader who goes on behind damage. -/
namespace ArithDispatch.Text

/-- The characters that the bytes from a place on stand for. A byte that belongs to no character is read as
`standIn`. -/
def decode (standIn : Char) (bytes : ByteArray) (place : Nat) : List Char :=
  if place < bytes.size then
    match bytes.utf8DecodeChar? place with
    | some c => c :: decode standIn bytes (place + c.utf8Size)
    | none => standIn :: decode standIn bytes (place + 1)
  else []
termination_by bytes.size - place
decreasing_by
  · have := c.utf8Size_pos
    omega
  · omega

theorem decode_append (standIn : Char) (front : ByteArray) (cs : List Char) :
    decode standIn (front ++ cs.utf8Encode) front.size = cs := by
  induction cs generalizing front with
  | nil => rw [decode]; simp
  | cons c rest ih =>
    have hsize : [c].utf8Encode.size = c.utf8Size := by simp [List.utf8Encode_singleton]
    have hread : (front ++ (c :: rest).utf8Encode).utf8DecodeChar? front.size = some c := by
      rw [ByteArray.utf8DecodeChar?_eq_utf8DecodeChar?_extract,
        ByteArray.extract_append_eq_right rfl ByteArray.size_append, List.utf8DecodeChar?_utf8Encode_cons]
    have hmore : front.size < (front ++ (c :: rest).utf8Encode).size := by
      rw [List.utf8Encode_cons, ByteArray.size_append, ByteArray.size_append, hsize]
      have := c.utf8Size_pos
      omega
    rw [decode, if_pos hmore, hread]
    dsimp only
    have hnext := ih (front ++ [c].utf8Encode)
    rw [ByteArray.size_append, hsize, ByteArray.append_assoc, ← List.utf8Encode_cons] at hnext
    rw [hnext]

/-- Without damage nothing is stood in for. -/
theorem decode_toUTF8 (standIn : Char) (text : String) : decode standIn text.toUTF8 0 = text.toList := by
  have h := decode_append standIn .empty text.toList
  rwa [String.utf8Encode_toList, ByteArray.empty_append] at h

end ArithDispatch.Text
