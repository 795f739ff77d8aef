import MessageWire.Bytes.BigEndian

/-!
# Text as bytes

* `utf8`: the bytes of a text;
* `ofUtf8?`: the text of bytes that are well formed;
* `ofUtf8?_utf8`, `utf8_of_ofUtf8?`: the two are inverse.
-/

namespace MessageWire

/-- The UTF-8 form of a text. -/
def utf8 (s : String) : Bytes := s.toByteArray.data.toList

/-- The text whose UTF-8 form is `bs`, if there is one. -/
def ofUtf8? (bs : Bytes) : Option String := String.fromUTF8? ⟨bs.toArray⟩

theorem ofUtf8?_utf8 (s : String) : ofUtf8? (utf8 s) = some s := by
  have h : (⟨s.toByteArray.data.toList.toArray⟩ : ByteArray) = s.toByteArray := by simp
  rw [ofUtf8?, utf8, h, String.fromUTF8?, dif_pos s.isValidUTF8]
  rfl

theorem utf8_of_ofUtf8? {bs : Bytes} {s : String} (h : ofUtf8? bs = some s) : utf8 s = bs := by
  unfold ofUtf8? String.fromUTF8? at h
  split at h
  · obtain rfl := Option.some.inj h
    rfl
  · cases h

end MessageWire
