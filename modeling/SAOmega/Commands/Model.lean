import SAOmega.Support.Pieces

/-!
# The notification command

`SendNotification` of `Plugin/commands.cpp`: an RCON command which shows a
message to all players, or tells its sender what is wrong with it.

`FString::RemoveFromStart` and `std::stof` belong to the engine and the standard
library and are the parameters `removeFromStart` and `stof`; a failure of `stof`
is the `what()` of its exception.
-/

namespace SAOmega.Commands

open SAOmega.Support

/-- An `FString` is the array of its characters. -/
abbrev FString := List Char

structure RCONPacket where
  id : ℤ
  body : FString
deriving DecidableEq

/-- What the command does, with `F` for `float`. -/
inductive Effect (F : Type*)
  /-- `rcon_connection->SendMessageW`. -/
  | sendMessage (id type : ℤ) (reply : FString)
  | sendNotificationToAll (color : F × F × F × F) (scale time : F)
      (text : FString)
deriving DecidableEq

/-- `FString::ParseIntoArray`. -/
def parseIntoArray (text : FString) (delim : Char) (cullEmpty : Bool) :
    List FString :=
  if cullEmpty then pieces delim text else text.splitOn delim

/-- The loop over `parsed` from the index `i` on. -/
def appendPieces (i : ℕ) (sendmsg : FString) : List FString → FString
  | [] => sendmsg
  | piece :: parsed =>
      let sendmsg := if 4 ≤ i then sendmsg ++ [' '] else sendmsg
      appendPieces (i + 1) (sendmsg ++ piece) parsed

variable {F : Type*} [OfNat F 255]
  (removeFromStart : FString → FString → FString)
  (stof : FString → Except FString F)

/-- One `try` block with the texts of its reply. -/
def readParam (before after : String) (param : FString) : Except FString F :=
  match stof param with
  | .ok x => .ok x
  | .error what => .error (before.toList ++ param ++ after.toList ++ what)

/-- The values of `r`, `g`, `b` and `a` in the end. -/
def readColor (colorParsed : List FString) : Except FString (F × F × F × F) :=
  match colorParsed with
  | red :: green :: blue :: _ => do
      let r ← readParam stof "Invalid Params: r color: <" "> - " red
      let g ← readParam stof "Invalid Params: g color: " " - " green
      let b ← readParam stof "Invalid Params: b color: " " - " blue
      return (r, g, b, 255)
  | _ => return (255, 255, 255, 255)

/-- `SendNotification` up to its last statement, or the reply of the `return`
it leaves by. -/
def readNotification (body : FString) :
    Except FString ((F × F × F × F) × F × F × FString) :=
  match parseIntoArray body '|' true with
  | first :: size :: duration :: message :: others => do
      let color ← readColor stof (parseIntoArray
        (removeFromStart first "SendNotification ".toList) ',' true)
      let scale ← readParam stof "Invalid Params: scale: " " - " size
      let time ← readParam stof "Invalid Params: time: " " - " duration
      return (color, scale, time, appendPieces 3 [] (message :: others))
  | _ => throw "Invalid Params: r,g,b,a|size|duration|Message".toList

/-- `SendNotification`. -/
def sendNotification (packet : RCONPacket) : List (Effect F) :=
  match readNotification removeFromStart stof packet.body with
  | .ok (color, scale, time, sendmsg) =>
      [.sendNotificationToAll color scale time sendmsg]
  | .error reply => [.sendMessage packet.id 0 reply]

end SAOmega.Commands
