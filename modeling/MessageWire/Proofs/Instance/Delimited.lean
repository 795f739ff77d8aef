import MessageWire.Proofs.Instance.Closed
import MessageWire.Proofs.Instance.Decode
import MessageWire.Proofs.Wire.Delimited

/-!
# Where a message ends

The length of a message is not on the wire, and nothing marks its end. A decoder finds the end all
the same, and it finds out when a message has been cut short.

* `Instance.delimited_decode`: the decoder;
* **`Instance.run_decode_append_and_take`**: a message in front of more bytes, and one cut short.
-/

namespace MessageWire

variable {n : Nat} {G : Catalog n}

namespace Instance

theorem delimited_decode (s : Fin n) : Delimited (decode G s) := closed_delimited.decode G s

/-- **A message in front of more bytes, and one cut short.** A decoder that does not miss any bytes
answers the same whatever follows those that it has used, and it misses some as soon as one of them
is gone: they start no later than the input ends and lie within those that it would have used. -/
theorem run_decode_append_and_take {s : Fin n} {limits : Limits} {bs : Bytes}
    {o : Except WireError (Instance n)} {left : Source}
    (h : (decode G s).run (.memory bs) limits = (o, left))
    (ho : ∀ offset needed, o ≠ .error (.truncated offset needed)) :
    ∃ used rest, bs = used ++ rest ∧ left = .memory rest ∧
      (∀ more, (decode G s).run (.memory (bs ++ more)) limits = (o, .memory (rest ++ more))) ∧
      ∀ k < used.length, ∃ offset needed,
        (decode G s).run (.memory (bs.take k)) limits =
            (.error (.truncated offset needed), .memory []) ∧
          offset ≤ k ∧ k < offset + needed ∧ offset + needed ≤ used.length := by
  obtain ⟨offset, needed, e⟩ | ⟨used, rest, rfl, rfl, hmore, hcut⟩ := (delimited_decode s).run h
  · exact absurd e (ho offset needed)
  · refine ⟨used, rest, rfl, rfl, fun more => ?_, fun k hk => ?_⟩
    · rw [List.append_assoc, hmore]
    · rw [List.take_append_of_le_length (Nat.le_of_lt hk)]
      exact hcut k hk

theorem run_decode_lamp_append_and_take :
    ∃ used rest, (lamps.fingerprint 0).toBytes ++ [7, 0, 0, 0, 2, 120, 5] ++ [255] = used ++ rest ∧
      Source.memory [255] = .memory rest ∧
      (∀ more, (decode lamps 0).run (.memory ((lamps.fingerprint 0).toBytes ++
          [7, 0, 0, 0, 2, 120, 5] ++ [255] ++ more)) .standard =
        (.ok lamp, .memory (rest ++ more))) ∧
      ∀ k < used.length, ∃ offset needed,
        (decode lamps 0).run (.memory (((lamps.fingerprint 0).toBytes ++
            [7, 0, 0, 0, 2, 120, 5] ++ [255]).take k)) .standard =
            (.error (.truncated offset needed), .memory []) ∧
          offset ≤ k ∧ k < offset + needed ∧ offset + needed ≤ used.length :=
  run_decode_append_and_take run_decode_lamp nofun

end Instance

end MessageWire
