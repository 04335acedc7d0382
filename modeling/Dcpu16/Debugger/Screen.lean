import Dcpu16.Debugger

/-!
# The debugger's screen

The screen is made of framed panels: on the left the instructions from PC on, the registers and the status
line, on the right memory, the interrupts and the keys. Each panel cuts its text at its width.
-/

namespace Dcpu16.Debugger

/-! ## Panels -/

/-- The colours of text. -/
inductive Color
  | reset | red | green | yellow | blue | magenta | cyan | gray | darkGray | white
  deriving DecidableEq, Repr, Inhabited

/-- The name of a colour. -/
def Color.name : Color → String
  | reset => "Reset"
  | red => "Red"
  | green => "Green"
  | yellow => "Yellow"
  | blue => "Blue"
  | magenta => "Magenta"
  | cyan => "Cyan"
  | gray => "Gray"
  | darkGray => "DarkGray"
  | white => "White"

/-- How a character is shown. -/
structure Style where
  color : Color := .reset
  bold : Bool := false
  deriving DecidableEq, Repr, Inhabited

/-- A character on the screen. -/
structure Glyph where
  char : Char
  style : Style := {}
  deriving DecidableEq, Repr, Inhabited

/-- The glyphs of a text in one style. -/
def styled (style : Style) (t : Text) : List Glyph := t.map ({ char := ·, style })

/-- A row of a panel: what is written, and the style of the blanks behind it. -/
structure Row where
  glyphs : List Glyph
  fill : Style := {}
  deriving Repr, Inhabited

/-- A row in one style, blanks included. -/
def Row.plain (style : Style) (t : Text) : Row := { glyphs := styled style t, fill := style }

/-- A framed panel. -/
structure Panel where
  title : Text
  frame : Style
  /-- The style of the rows that are left empty. -/
  blank : Style := {}
  rows : List Row
  deriving Repr, Inhabited

/-- Exactly `width` glyphs: a row that is cut or filled up. -/
def Row.fit (width : Nat) (r : Row) : List Glyph :=
  (r.glyphs.take width).rightpad width { char := ' ', style := r.fill }

/-- The glyphs of a panel, row by row. -/
def Panel.draw (p : Panel) (width height : Nat) : List (List Glyph) :=
  let inner := width - 2
  let framed (left right : Char) (row : List Glyph) : List Glyph :=
    { char := left, style := p.frame } :: row ++ [{ char := right, style := p.frame }]
  let line : Glyph := { char := '─', style := p.frame }
  let title := (styled p.frame (' ' :: p.title ++ [' '])).take inner
  let rows := (p.rows.take (height - 2)).rightpad (height - 2) { glyphs := [], fill := p.blank }
  framed '┌' '┐' (title.rightpad inner line) :: rows.map (fun r => framed '│' '│' (r.fit inner)) ++
    [framed '└' '┘' (List.replicate inner line)]

/-! ## The panels of the debugger -/

/-- An instruction: marks for a breakpoint and for PC, the address and the text. -/
def instructionRow (d : Debugger) (line : Word × Text) : Row :=
  let (p, text) := line
  let current := p = d.machine.regs.pc
  let style : Style :=
    if current then { color := .yellow, bold := true } else if d.stopsAt p then { color := .red } else {}
  let mark : Char := if d.stopsAt p then '●' else ' '
  let pointer : Char := if current then '▶' else ' '
  .plain style (mark :: ' ' :: pointer :: ' ' :: p.hex ++ ':' :: ' ' :: text)

/-- The instructions from PC on. -/
def instructionPanel (d : Debugger) (height : Nat) : Panel where
  title := "Disassembly".toList
  frame := { color := .cyan }
  rows := (d.disassembly (height - 2)).map d.instructionRow

/-- The name of a register and its value. -/
def registerGlyphs (name : String) (v : Word) (color : Color) : List Glyph :=
  styled {} (name.toList.leftpad 2 ' ' ++ [':', ' ']) ++ styled { color } (v.hex ++ [' ', ' '])

/-- The registers, the cycles that went by and the state. -/
def registerPanel (d : Debugger) : Panel where
  title := "Registers".toList
  frame := { color := .green }
  rows :=
    let regs := d.machine.regs
    let general (rs : List Register) : Row :=
      { glyphs := rs.flatMap fun r => registerGlyphs (String.singleton r.letter) (regs.get r) .white }
    let state : Color := if d.machine.isRunning then .green else .red
    [general [.a, .b, .c, .x], general [.y, .z, .i, .j],
      { glyphs := registerGlyphs "PC" regs.pc .yellow ++ registerGlyphs "SP" regs.sp .white ++
          registerGlyphs "EX" regs.ex .white ++ registerGlyphs "IA" regs.ia .white },
      { glyphs := styled {} "Cycles: ".toList ++ styled { color := .cyan } (decimal d.machine.cycles) ++
          styled {} "   State: ".toList ++ styled { color := state } d.machine.status.text.toList }]

/-- The status line. -/
def statusPanel (d : Debugger) : Panel where
  title := "Status".toList
  frame := { color := .white }
  blank := { color := .white }
  rows := [.plain { color := .white } d.status.toList]

/-- A row of memory: its address and its words. -/
def memoryRow (d : Debugger) (row : Nat) : Row :=
  let start : Word := UInt16.ofNat (row * rowSize)
  let words := d.machine.mem.block start rowSize
  let style : Style :=
    if d.machine.regs.pc.toNat / rowSize = row then { color := .yellow, bold := true }
    else if words.any (· ≠ 0) then { color := .white }
    else { color := .darkGray }
  .plain style (start.hex ++ ':' :: ' ' :: [' '].intercalate (words.map Word.hex))

/-- The rows of memory from the one that was scrolled to. -/
def memoryPanel (d : Debugger) (height : Nat) : Panel where
  title := "Memory".toList
  frame := { color := .magenta }
  rows := (List.range' d.scroll (min (height - 2) (rowCount - d.scroll))).map d.memoryRow

/-- The interrupt queue and the first twelve messages that wait in it. -/
def interruptPanel (d : Debugger) : Panel where
  title := "Interrupts".toList
  frame := { color := .blue }
  rows :=
    let queue := d.machine.interrupts
    let mode := if queue.queueing then styled { color := .yellow } "on".toList else styled { color := .gray } "off".toList
    [{ glyphs := styled {} "Queueing: ".toList ++ mode ++
        styled {} (s!"   Pending: {queue.pending.length}   Devices: {d.machine.devices.length}").toList },
      { glyphs := styled {} ([' '].intercalate ((queue.pending.take 12).map Word.hex)) }]

/-- The keys. -/
def helpPanel : Panel where
  title := "Help".toList
  frame := { color := .darkGray }
  blank := { color := .darkGray }
  rows :=
    [.plain { color := .darkGray } "s: Step  r: Run  p: Pause  b: Breakpoint".toList,
      .plain { color := .darkGray } "x: Reset  ↑↓/PgUp/PgDn: Scroll memory  q: Quit".toList]

/-- The screen of the debugger. Both halves have the same width. -/
def screen (d : Debugger) (width height : Nat) : List (List Glyph) :=
  let half := width / 2
  let left := (d.instructionPanel (height - 11)).draw half (height - 11) ++ d.registerPanel.draw half 8 ++
    d.statusPanel.draw half 3
  let right := (d.memoryPanel (height - 9)).draw half (height - 9) ++ d.interruptPanel.draw half 5 ++
    helpPanel.draw half 4
  left.zipWith (· ++ ·) right

end Dcpu16.Debugger
