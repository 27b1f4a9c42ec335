import TerseDsa.Foundation.Run

namespace TerseDsa

open Foundation

/-!
# `core/print`: runs of writes

A stream is what it was asked to write, piece by piece, together with what it
answers to each piece; an answer below zero is a failed write.  What the printers
of the containers do is a run of writes whose answers are joined.
-/

/-- A `FILE *` that is written to. -/
structure OutStream where
  asked : List String
  answers : Nat -> Int

/-- One call that writes, over the stream and the state behind its `ctx`. -/
abbrev Write (C : Type) := OutStream × C -> Int × (OutStream × C)

/-- `tda_FPrint`: what it writes of an elem, and how often it does, is its own affair. -/
abbrev FPrint (α C : Type) := α -> Write C

namespace OutStream

variable {C : Type}

/-- `fputc`, `fputs` and `fprintf`, under the text that comes out. -/
def put (text : String) : Write C := fun out =>
  (out.1.answers out.1.asked.length, ({ out.1 with asked := out.1.asked ++ [text] }, out.2))

end OutStream

/-- `tda_fprint_join_`. -/
def fprintJoin (acc rc : Int) : Int := if acc < 0 then acc else if rc < 0 then rc else 0

variable {C : Type} {acc : Int} {writes more : List (Write C)} {out : OutStream × C}

/-- A write whose answer is joined with those before it. -/
def joined (acc : Int) (write : Write C) (out : OutStream × C) : Int × (OutStream × C) :=
  (fprintJoin acc (write out).1, (write out).2)

/-- A run of writes: each is made, whatever the ones before it came to. -/
def writeAll : List (Write C) -> Int -> OutStream × C -> Int × (OutStream × C)
  | [], acc, out => (acc, out)
  | write :: rest, acc, out => writeAll rest (fprintJoin acc (write out).1) (write out).2

theorem writeAll_append : writeAll (writes ++ more) acc out =
    writeAll more (writeAll writes acc out).1 (writeAll writes acc out).2 := by
  induction writes generalizing acc out with
  | nil => rfl
  | cons write rest ih => exact ih

end TerseDsa
