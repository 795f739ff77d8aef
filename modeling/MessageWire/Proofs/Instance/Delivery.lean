import MessageWire.Proofs.Instance.Closed
import MessageWire.Proofs.Instance.Decode
import MessageWire.Proofs.Wire.Delivery

/-!
# Messages in pieces

A message may come in pieces of any sizes, and its source may fail behind it. What is decoded
depends on neither.

* `Instance.exists_memory_of_run_decode`: what is decoded from a source is decoded from memory;
* **`Instance.run_decode_in_pieces`**: a source in pieces, and one that fails at its end.
-/

namespace MessageWire.Instance

variable {n : Nat} {G : Catalog n} {s : Fin n} {limits : Limits}

theorem delivers_decode (G : Catalog n) (s : Fin n) : Delivers (decode G s) :=
  closed_delivers.decode G s

/-- What is decoded from a source is decoded from some bytes in memory. -/
theorem exists_memory_of_run_decode {source left : Source} {m : Instance n}
    (h : (decode G s).run source limits = (.ok m, left)) :
    ∃ bs left', (decode G s).run (.memory bs) limits = (.ok m, left') := by
  obtain ⟨rest, hm⟩ := (delivers_decode G s).run_ok h
  exact ⟨source.rest, .memory rest, hm⟩

/-- **A source in pieces, and one that fails at its end.** However small the pieces, and in whatever
order they come in different sizes, the outcome and the bytes that are left are those of the same
bytes in memory. So they are if the source fails behind its last byte, but that where bytes are
missing the failure is reported. -/
theorem run_decode_in_pieces (G : Catalog n) (s : Fin n) (limits : Limits) (bs : Bytes) :
    ∃ o rest, (decode G s).run (.memory bs) limits = (o, .memory rest) ∧
      ∀ pieces : Pieces, pieces.Positive →
        (∃ reads, (decode G s).run ⟨bs, pieces, none⟩ limits =
          (o, ⟨rest, pieces.drop reads, none⟩)) ∧
        ∀ fault : Fault, fault.Lasting →
          ∃ reads, (decode G s).run ⟨bs, pieces, some fault⟩ limits =
            (match o with
              | .error (.truncated _ _) => .error (.io fault)
              | o => o, ⟨rest, pieces.drop reads, some fault⟩) := by
  obtain ⟨-, rest, o, -, hm, -⟩ :=
    (delivers_decode G s).run (s := .memory bs) Pieces.positive_uniform_none limits
  change (decode G s).run (.memory bs) limits = _ at hm
  have hrun (source : Source) (hr : source.rest = bs) (hp : source.pieces.Positive)
      (hl : source.Lasting) : ∃ reads,
      (decode G s).run source limits = (o.mapError source.report, source.passed reads rest) := by
    obtain ⟨reads, rest', o₁, o', hm', hs, hreport⟩ := (delivers_decode G s).run hp limits
    rw [hr, hm] at hm'
    cases hm'
    exact ⟨reads, by rw [hs, hreport hl]⟩
  refine ⟨o, rest, hm, fun pieces hp => ⟨?_, fun fault hfault => ?_⟩⟩
  · obtain ⟨reads, h⟩ := hrun ⟨bs, pieces, none⟩ rfl hp nofun
    refine ⟨reads, h.trans ?_⟩
    cases o with
    | ok m => rfl
    | error e => cases e <;> rfl
  · obtain ⟨reads, h⟩ :=
      hrun ⟨bs, pieces, some fault⟩ rfl hp fun f hf => Option.some.inj hf ▸ hfault
    refine ⟨reads, h.trans ?_⟩
    cases o with
    | ok m => rfl
    | error e => cases e <;> rfl

/-- Three bytes at a time; pieces that grow and shrink; and a line that is lost in front of the
first byte. -/
theorem run_decode_lamp_in_pieces :
    (decode lamps 0).run ⟨(lamps.fingerprint 0).toBytes ++ [7, 0, 0, 0, 2, 120, 5] ++ [255],
        .uniform (some 3), none⟩ .standard = (.ok lamp, ⟨[255], .uniform (some 3), none⟩) ∧
      (∃ reads, (decode lamps 0).run
        ⟨(lamps.fingerprint 0).toBytes ++ [7, 0, 0, 0, 2, 120, 5] ++ [255],
          ⟨[5, 1, 9, 1, 2], some 1⟩, none⟩ .standard =
        (.ok lamp, ⟨[255], .drop ⟨[5, 1, 9, 1, 2], some 1⟩ reads, none⟩)) ∧
      (decode lamps 0).run
          ⟨[], .uniform (some 3), some ⟨.other "TimedOut", "no answer"⟩⟩ .standard =
        (.error (.io ⟨.other "TimedOut", "no answer"⟩),
          ⟨[], .uniform (some 3), some ⟨.other "TimedOut", "no answer"⟩⟩) := by
  have hnil : (decode lamps 0).run (.memory []) .standard =
      (.error (.truncated 0 8), .memory []) :=
    Read.run_of_error (bind_error (bind_error (bind_error (Read.fixed_facing _ 8 []))))
  obtain ⟨o, rest, hlamp, hpieces⟩ := run_decode_in_pieces lamps 0 .standard
    ((lamps.fingerprint 0).toBytes ++ [7, 0, 0, 0, 2, 120, 5] ++ [255])
  rw [run_decode_lamp] at hlamp
  cases hlamp
  obtain ⟨o, rest, hempty, hfails⟩ := run_decode_in_pieces lamps 0 .standard []
  rw [hnil] at hempty
  cases hempty
  obtain ⟨reads, hthree⟩ := (hpieces (.uniform (some 3)) (by decide)).1
  rw [Pieces.drop_uniform] at hthree
  obtain ⟨reads, hlost⟩ := (hfails (.uniform (some 3)) (by decide)).2
    ⟨.other "TimedOut", "no answer"⟩ ⟨by decide, by decide⟩
  rw [Pieces.drop_uniform] at hlost
  exact ⟨hthree, (hpieces ⟨[5, 1, 9, 1, 2], some 1⟩ (by decide)).1, hlost⟩

end MessageWire.Instance
