import Dcpu16.Text

/-!
# Visible text

What is left of a text without the control characters and control sequences of terminals. A sequence starts
with an escape character and ends with a letter, or, if it holds a string, with the next escape character.
-/

namespace Dcpu16

/-- How far a control sequence has been read. -/
inductive ControlState
  /-- In no sequence. -/
  | outside
  | escape
  | escapeIntermediate
  | controlEntry
  | controlParameter
  | controlIntermediate
  | controlIgnored
  | deviceEntry
  | deviceParameter
  | deviceIntermediate
  | deviceIgnored
  | deviceData
  /-- In a command to the system, which may also end with the bell. -/
  | systemData
  /-- In a string, a private message or an application command. -/
  | stringData
  deriving DecidableEq, Repr, Inhabited

namespace ControlState

/-- Whether a character is one of the controls that move to another place in the text. -/
def isSpacing (c : Char) : Bool := c = '\t' || c = '\n' || c = '\x0c' || c = '\r'

/-- Whether a character that is in no sequence is visible. -/
def isVisible (c : Char) : Bool := (0x20 ≤ c.toNat && c.toNat ≠ 0x7f) || isSpacing c

/-- Whether spacing shows through a sequence. It does not if strings may follow. -/
def showsSpacing : ControlState → Bool
  | outside | escape | escapeIntermediate | controlEntry | controlParameter | controlIntermediate | controlIgnored => true
  | deviceEntry | deviceParameter | deviceIntermediate | deviceIgnored | deviceData | systemData | stringData => false

/-- Whether the byte 0x9c ends a sequence. -/
def endsAtTerminator : ControlState → Bool
  | deviceIgnored | deviceData | stringData => true
  | _ => false

/-- The state behind an ASCII character that is no escape character and cancels nothing. -/
def afterAscii (s : ControlState) (n : Nat) : ControlState :=
  match s with
  | outside => outside
  | escape =>
    if n < 0x20 || n = 0x7f then escape
    else if n < 0x30 then escapeIntermediate
    else if n = 0x50 then deviceEntry
    else if n = 0x5b then controlEntry
    else if n = 0x5d then systemData
    else if n = 0x58 || n = 0x5e || n = 0x5f then stringData
    else outside
  | escapeIntermediate => if n < 0x30 || n = 0x7f then s else outside
  | controlEntry =>
    if n < 0x20 || n = 0x7f then s
    else if n < 0x30 then controlIntermediate
    else if n < 0x40 then controlParameter
    else outside
  | controlParameter =>
    if n < 0x20 || n = 0x7f then s
    else if n < 0x30 then controlIntermediate
    else if n < 0x3c then s
    else if n < 0x40 then controlIgnored
    else outside
  | controlIntermediate => if n < 0x30 || n = 0x7f then s else if n < 0x40 then controlIgnored else outside
  | controlIgnored => if n < 0x40 || n = 0x7f then s else outside
  | deviceEntry =>
    if n < 0x20 || n = 0x7f then s
    else if n < 0x30 then deviceIntermediate
    else if n < 0x40 then deviceParameter
    else deviceData
  | deviceParameter =>
    if n < 0x20 || n = 0x7f then s
    else if n < 0x30 then deviceIntermediate
    else if n < 0x3c then s
    else if n < 0x40 then deviceIgnored
    else deviceData
  | deviceIntermediate => if n < 0x30 || n = 0x7f then s else if n < 0x40 then deviceIgnored else deviceData
  | systemData => if n = 7 then outside else s
  | deviceIgnored | deviceData | stringData => s

/-- The state behind a character. An escape character starts a sequence anew and two controls cancel it. -/
def after (s : ControlState) (c : Char) : ControlState :=
  if c = '\x1b' then escape
  else if c = '\x18' || c = '\x1a' then outside
  else if c.toNat < 0x80 then s.afterAscii c.toNat
  else if s.endsAtTerminator && (String.utf8EncodeChar c).contains 0x9c then outside
  else s

end ControlState

/-- A text being read: the state, and what has been visible so far, backwards. -/
structure VisibleScan where
  state : ControlState := .outside
  /-- Whether visible text is being read. Behind spacing in a sequence it is, until the next control character. -/
  showing : Bool := false
  shown : Text := []
  deriving Repr, Inhabited

/-- Reads a character. -/
def VisibleScan.step (v : VisibleScan) (c : Char) : VisibleScan :=
  let shows :=
    if v.showing || v.state = .outside then ControlState.isVisible c
    else v.state.showsSpacing && ControlState.isSpacing c
  if shows then
    { state := if c.toNat < 0x80 then v.state else .outside, showing := true, shown := c :: v.shown }
  else { v with state := v.state.after c, showing := false }

/-- The visible characters of a text. -/
def visible (t : Text) : Text := (t.foldl VisibleScan.step {}).shown.reverse

end Dcpu16
