/-!
# Names in messages

* `ticked`: a name as it stands in the text of an error.
-/

namespace MessageWire

/-- A name between backticks. -/
def ticked (name : String) : String := "\x60" ++ name ++ "\x60"

end MessageWire
