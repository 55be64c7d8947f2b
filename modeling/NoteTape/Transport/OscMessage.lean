import NoteTape.Transport.Osc

/-!
# Messages of Open Sound Control

`OscFormat.standard` is the library that a running program has.

In the binary format of a message a text is its UTF-8 bytes, closed by one to four NULs so that
its length is a multiple of four.  A message is the address, the text `,s` that announces one
text argument, and the argument.
-/

namespace NoteTape
namespace Osc

/-- A text in the binary format. -/
def padded (text : String) : List UInt8 :=
  let bytes := text.toUTF8.toList
  bytes ++ List.replicate (4 - bytes.length % 4) 0

/-- The message that carries a tape to an address. -/
def datagram (address tape : String) : List UInt8 := padded address ++ padded ",s" ++ padded tape

end Osc

/-- The library of a running program. -/
def OscFormat.standard : OscFormat := ⟨Osc.datagram⟩

end NoteTape
