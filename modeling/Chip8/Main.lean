import Chip8.Dice
import Chip8.Listing
import Chip8.Runner

/-!
# The programs

One executable is both programs: under a name that ends in `disasm` it prints listings, and under
any other name it runs programs. Everything that is decided is decided elsewhere; here files are
read, outputs are written, and frames wait for their time.
-/

namespace Chip8

open CommandLine

/-- The number and the words of the operating system for an error. An error that is not the
operating system's counts as one of input and output. -/
def osError : IO.Error → UInt32 × String
  | .alreadyExists _ code words | .interrupted _ code words | .noFileOrDirectory _ code words
  | .invalidArgument _ code words | .permissionDenied _ code words
  | .resourceExhausted _ code words | .inappropriateType _ code words
  | .noSuchThing _ code words | .otherError code words | .resourceBusy code words
  | .resourceVanished code words | .unsupportedOperation code words | .hardwareFault code words
  | .unsatisfiedConstraints code words | .illegalOperation code words
  | .protocolError code words | .timeExpired code words => (code, words)
  | e => (5, toString e)

/-- The fault of a file that could not be read. The number may come with its sign changed. -/
def FileFault.ofError (e : IO.Error) : FileFault :=
  let (code, words) := osError e
  .ofCode (min code (0 - code)).toNat words

/-- The bytes of a file. -/
def readBytes (path : String) : IO (Except FileFault (List UInt8)) := do
  try
    return .ok (← IO.FS.readBinFile path).toList
  catch e =>
    return .error (.ofError e)

/-- Write the outputs of a program. -/
def write (output : Output) : IO UInt32 := do
  (← IO.getStdout).putStr output.stdout
  (← IO.getStderr).putStr output.stderr
  return output.exit

/-- Write what a frame shows. -/
def showFrame (p : Runner.Outcome) : IO Unit := do
  let stdout ← IO.getStdout
  let stderr ← IO.getStderr
  p.shown.forM fun s => stdout.putStr s.text
  stdout.flush
  p.notices.forM fun n => stderr.putStr n.text
  stderr.flush

/-- Wait until the time of the frame with the number `k` in a run that began at `beginning`. -/
def waitForFrame (beginning k : Nat) : IO Unit := do
  let due := beginning + k * 1000 / Runner.frameRate
  let now ← IO.monoMsNow
  if now < due then
    IO.sleep (due - now).toUInt32

/-- Run `n` frames, each at its time, or as many as there are before a fault. -/
def playFrames (beginning k : Nat) (s : Runner.Session) : Nat → IO Runner.Session
  | 0 => return s
  | n + 1 => do
    if s.ended then
      return s
    if !s.settings.fast then
      waitForFrame beginning k
    let p := s.frame
    showFrame p
    playFrames beginning (k + 1) p.session n

/-- Run the program of a file, frame by frame. -/
def play (settings : Runner.Settings) (dice : Nat → UInt8) (path : String) : IO UInt32 := do
  let file ← readBytes path
  match Runner.start settings dice file with
  | .error _ => write (Runner.run settings dice file)
  | .ok session =>
    let last ← playFrames (← IO.monoMsNow) 1 session settings.frames
    showFrame { session := last, shown := last.finale }
    return 0

/-- The program that runs programs. -/
def runnerMain (arguments : List String) : IO UInt32 := do
  let seed := (← IO.getRandomBytes 8).toUInt64LE!
  match Runner.grammar.parse {} arguments with
  | .ok (.work path settings) => play settings (Dice.roll seed) path
  | _ => write (Runner.command (fun _ => .error .missing) (Dice.roll seed) arguments)

/-- The program that prints listings. -/
def listingMain (arguments : List String) : IO UInt32 := do
  match Listing.grammar.parse {} arguments with
  | .ok (.work path settings) => write (Listing.print settings (← readBytes path))
  | _ => write (Listing.command (fun _ => .error .missing) arguments)

end Chip8

def main (arguments : List String) : IO UInt32 := do
  if (← IO.appPath).toString.endsWith "disasm" then
    Chip8.listingMain arguments
  else
    Chip8.runnerMain arguments
