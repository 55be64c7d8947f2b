import NoteTape.Libraries
import Std.Async.DNS
import Std.Async.UDP

/-!
# The executable

The outermost layer: the libraries, the real network, the real disk, and the loop that asks for
lines.  What happens between the question for a line and the next is a turn of the console.
-/

namespace NoteTape
namespace Main

/-- The libraries that the program runs with. -/
def libraries : Libraries := .standard

/-- How a refusal of the file system is worded. -/
def fileReason (name : String) (error : IO.Error) : String :=
  let worded (code : UInt32) (what : String) : String :=
    "[Errno " ++ toString code ++ "] " ++ what ++ ": " ++ Text.quoted name
  match error with
  | .noFileOrDirectory _ code _ => worded code "No such file or directory"
  | .permissionDenied _ code _ => worded code "Permission denied"
  | .inappropriateType _ code _ =>
      worded code (if code = 21 then "Is a directory" else "Not a directory")
  | error => toString error

/-- The real disk. -/
def disk : Disk IO where
  write name bytes := do
    try
      IO.FS.writeBinFile name (ByteArray.mk bytes.toArray)
      return .ok ()
    catch error => return .error (.refused (fileReason name error))

/-- The text of a file, if there is one, unless the disk refuses. -/
def find (name : String) : IO (Except Fault (Option String)) := do
  try
    return .ok (some (← IO.FS.readFile name))
  catch
    | .noFileOrDirectory _ _ _ => return .ok none
    | error => return .error (.refused (fileReason name error))

/-- The address of a host. -/
def addressOf (host : String) : IO Std.Net.IPv4Addr := do
  match Std.Net.IPv4Addr.ofString host with
  | some address => return address
  | none =>
      let found ← (Std.Async.DNS.getAddrInfo host "" (some .ipv4)).block
      match found.toList.head? with
      | some (Std.Net.IPAddr.v4 address) => return address
      | _ => throw (IO.userError "Name or service not known")

/-- The real network, with a cell for its socket. -/
def network (cell : IO.Ref (Option Std.Async.UDP.Socket)) : Network IO where
  openSocket := do
    cell.set (some (← Std.Async.UDP.Socket.mk))
  closeSocket := cell.set none
  transmit destination bytes := do
    try
      let socket ← match ← cell.get with
        | some socket => pure socket
        | none => Std.Async.UDP.Socket.mk
      let address ← addressOf destination.host
      let target : Std.Net.SocketAddress := .v4 ⟨address, destination.port.toNat.toUInt16⟩
      (socket.send (ByteArray.mk bytes.toArray) (some target)).block
      return .ok ()
    catch error => return .error (.refused (toString error))

/-- Show lines on the error output. -/
def complain (lines : List String) : IO Unit := do
  for line in lines do
    IO.eprintln line

/-- What comes when a line is asked for. -/
def ask (stdin stdout : IO.FS.Stream) : IO Input := do
  stdout.putStr Console.prompt
  stdout.flush
  let text ← stdin.getLine
  return if text.isEmpty then .ended else .line text

/-- A session without the notices that were shown already. -/
def Session.shown (session : Session) : Session :=
  ⟨session.lastTape, ⟨session.desk.source, #[]⟩, session.own⟩

/-- Take turns until the console stops; the answer is the fault that stopped it, if one did. -/
partial def converse (console : Console (StateT Wire IO)) (level : Threshold) (session : Session) :
    StateT Wire IO (Option Fault) := do
  let stdout ← IO.getStdout
  let input ← ask (← IO.getStdin) stdout
  let turn ← console.turn session input
  stdout.putStr (Console.textOf turn.shown)
  stdout.flush
  complain (level.lines turn.session.desk.notices.toList)
  match turn.goesOn with
  | .ok true => converse console level (Session.shown turn.session)
  | .ok false => return none
  | .error fault => return some fault

/-- Run the console of the settings. -/
def serve (settings : Settings) : IO UInt32 := do
  let net := network (← IO.mkRef none)
  let entropy ← IO.getRandomBytes 64
  let desk := Program.seededDesk settings ⟨.seeded (ofBigEndian entropy.toList), #[]⟩
  match Program.obstacle? settings with
  | some ⟨shown, fault⟩ =>
      IO.print (Console.textOf shown)
      complain (settings.level.lines desk.notices.toList ++ [fault.message])
      return 1
  | none =>
      let session := Console.start desk none
      IO.print (Console.textOf (Console.opening (settings.link net libraries.osc).description))
      complain (settings.level.lines session.desk.notices.toList)
      let console := Program.consoleOf libraries settings net disk
      let (fault, wire) ← (converse console settings.level (Session.shown session)).run
        (Wire.closed settings.destination)
      let _ ← Wire.disconnect net wire
      match fault with
      | none => return 0
      | some fault =>
          complain [fault.message]
          return 1

/-- Run the program. -/
def run (words : List String) : IO UInt32 := do
  let (launch, said) ← Program.launch libraries.config find words
  complain (Threshold.standard.lines said)
  match launch with
  | .fails fault =>
      complain [fault.message]
      return 1
  | .departs departure =>
      let (output, errors) := departure.lines
      IO.print (Console.textOf output)
      complain errors
      return departure.code.toUInt32
  | .starts settings => serve settings

end Main
end NoteTape

def main (words : List String) : IO UInt32 := NoteTape.Main.run words
