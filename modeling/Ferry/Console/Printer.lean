import Ferry.Console.Charset
import Ferry.Console.Sink

/-! Printing text and bytes to a sink. -/
namespace Ferry.Console

open Ferry.Files

/-- Text for a sink, in a character set or, where none is declared, in ASCII. -/
structure Printer (σ : Type) where
  sink : Sink σ
  charset : Option Charset
  state : σ

namespace Printer

variable {σ : Type}

/-- The bytes of a text as the printer writes them. -/
def bytes (p : Printer σ) (s : String) : List UInt8 := (p.charset.getD .ascii).encode s.toList

/-- Writes all of a text and flushes. -/
def print (p : Printer σ) (s : String) : Except IoError Unit × Printer σ :=
  match p.sink.writeAll p.state (p.bytes s) with
  | (.error e, state) => (.error e, { p with state })
  | (.ok _, state) =>
    let (result, state) := p.sink.flush state
    (result, { p with state })

/-- Prints a text and the end of its line. -/
def printLine (p : Printer σ) (s : String) : Except IoError Unit × Printer σ :=
  p.print (s ++ "\n")

end Printer
end Ferry.Console
