import DiceRoll.Text.Roll
import DiceRoll.Trace.Description

set_option autoImplicit false

namespace DiceRoll

namespace Main

def isWhite (c : Char) : Bool :=
  let n := c.toNat
  (0x9 ≤ n && n ≤ 0xD) || (0x2000 ≤ n && n ≤ 0x200A) ||
    [0x20, 0x85, 0xA0, 0x1680, 0x2028, 0x2029, 0x202F, 0x205F, 0x3000].contains n

def rollInput (roller : Roller) (input : String) : IO (Roller × Bool) := do
  match parse input with
  | .error errors =>
      IO.eprintln (ParseError.messages errors)
      return (roller, false)
  | .ok expr =>
      match expr.eval ⟨roller, Trace.empty⟩ with
      | .ok evaluation after =>
          IO.println after.sink.text
          IO.println (evaluation.text ++ " = " ++ evaluation.total.text)
          return (after.roller, true)
      | .error (.failed error) after =>
          IO.eprintln ("Evaluation error: " ++ error.message)
          return (after.roller, false)
      | .error _ after =>
          IO.eprintln "Evaluation error: rolling never finishes"
          return (after.roller, false)

def rollInputs (roller : Roller) (good : Bool) : List String → IO Bool
  | [] => return good
  | input :: inputs => do
      if input.toList.all isWhite then rollInputs roller good inputs
      else
        let (roller, rolled) ← rollInput roller input
        rollInputs roller (good && rolled) inputs

def withoutNewline (line : String) : String :=
  match line.toList.reverse with
  | '\n' :: '\r' :: rest => String.ofList rest.reverse
  | '\n' :: rest => String.ofList rest.reverse
  | _ => line

partial def readLines (input : IO.FS.Stream) (lines : Array String) : IO (Array String) := do
  let line ← input.getLine
  if line.isEmpty then return lines
  readLines input (lines.push (withoutNewline line))

def randomRoller : IO Roller := do
  let bytes ← IO.getRandomBytes 8
  return .ofSeed (bytes.toList.foldl (fun seed byte => seed * 256 + byte.toUInt64) 0)

end Main

end DiceRoll

def main (arguments : List String) : IO UInt32 := do
  let inputs ←
    if arguments.isEmpty then Array.toList <$> DiceRoll.Main.readLines (← IO.getStdin) #[]
    else pure [" ".intercalate arguments]
  let good ← DiceRoll.Main.rollInputs (← DiceRoll.Main.randomRoller) true inputs
  return if good then 0 else 1
