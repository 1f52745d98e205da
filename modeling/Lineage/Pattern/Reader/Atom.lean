import Lineage.Pattern.Reader.Cursor

/-!
# Reading patterns: atoms

An atom is the smallest thing a pattern says: a character, a class, an
assertion, or the dot. Most of them are single characters or begin with a
backslash.
-/

namespace Lineage.Pattern

/-- The smallest thing a pattern says. -/
inductive Atom where
  | char (c : Char)
  | set (a : CharSet)
  | look (l : Look)
  | dot
deriving Repr, DecidableEq

namespace Reader

/-- A character that means something else when it stands alone. -/
def isMeta (c : Char) : Bool :=
  c ∈ ['\\', '.', '+', '*', '?', '(', ')', '|', '[', ']', '\x7b', '\x7d', '^', '$', '#', '&', '-',
    '~']

/-- A character that a backslash leaves as it is: plain, and neither a letter
    nor a digit. The angle brackets stand for assertions. -/
def isEscapable (c : Char) : Bool :=
  isMeta c || (c.toNat < 0x80 && !c.isAlphanum && c != '<' && c != '>')

/-- The class that a letter after a backslash stands for. Without the characters of
    all scripts there are no classes of all other characters: they would match parts
    of characters. -/
def classOf? (allScripts : Bool) (c : Char) : Option CharSet :=
  let choose (wide plain : CharSet) := if allScripts then wide else plain
  let others (a : CharSet) := if allScripts then some a.compl else none
  match c with
  | 'd' => some (choose .digit .plainDigit)
  | 's' => some (choose .space .plainSpace)
  | 'w' => some (choose .word .plainWord)
  | 'D' => others .digit
  | 'S' => others .space
  | 'W' => others .word
  | _ => none

/-- The character that a letter after a backslash stands for. -/
def controlOf? (c : Char) : Option Char :=
  match c with
  | 'a' => some '\x07'
  | 'f' => some '\x0c'
  | 't' => some '\t'
  | 'n' => some '\n'
  | 'r' => some '\r'
  | 'v' => some '\x0b'
  | _ => none

/-- The number of hexadecimal digits after a letter, unless they stand between
    braces. -/
def hexLength? (c : Char) : Option Nat :=
  match c with
  | 'x' => some 2
  | 'u' => some 4
  | 'U' => some 8
  | _ => none

/-- A character given by its code point, after the letter. Two digits stand for a
    byte unless the characters of all scripts are meant, and a byte from `80` on is no
    character. -/
def hexChar (length : Nat) (s : List Char) : Reader Atom := do
  leaveMore s
  let n ← match (← rest) with
    | '\x7b' :: s => do
      leaveMore s
      hexUntilBrace (s.length + 1) none
    | _ => do
      let n ← hexDigits length 0
      if length = 2 && 0x80 ≤ n && !(← flags).allScripts then failure
      pure n
  let some c := Text.charOfCode? n | failure
  return .char c

/-- A letter of the name of an edge. -/
def isEdgeLetter (c : Char) : Bool := c.isAlpha || c = '-'

/-- The name of an edge up to the closing brace. -/
def edgeName : Nat → List Char → Reader (List Char)
  | 0, _ => failure
  | fuel + 1, read => do
    match (← rest) with
    | '\x7d' :: s => do
      leave s
      return read.reverse
    | c :: s =>
      if isEdgeLetter c then do
        leave s
        skipBlank
        edgeName fuel (c :: read)
      else failure
    | [] => failure

/-- The edge of words that is meant after `\b`. What stands in braces is a name
    if it begins like one; otherwise the braces are for a repetition. -/
def wordEdge : Reader WordEdge := do
  match (← rest) with
  | '\x7b' :: s =>
    let cursor ← get
    leaveMore s
    if (← rest).head?.any isEdgeLetter then
      match String.ofList (← edgeName (s.length + 1) []) with
      | "start" => return .start
      | "end" => return .stop
      | "start-half" => return .startHalf
      | "end-half" => return .stopHalf
      | _ => failure
    else do
      set cursor
      return .boundary
  | _ => return .boundary

/-- What a backslash and the text after it stand for. -/
def escape (s : List Char) : Reader Atom := do
  let c :: s := s | failure
  let flags ← flags
  let plain := !flags.allScripts
  if let some length := hexLength? c then hexChar length s
  else do
    leave s
    if let some a := classOf? flags.allScripts c then return .set a
    else if isEscapable c then return .char c
    else if let some c := controlOf? c then return .char c
    else match c with
      | 'A' => return .look .textStart
      | 'z' => return .look .textEnd
      | 'b' => return .look (.word (← wordEdge) plain)
      | 'B' => return .look (.word .inside plain)
      | '<' => return .look (.word .start plain)
      | '>' => return .look (.word .stop plain)
      | _ => failure

/-- The next atom. -/
def atom : Reader Atom := do
  let c :: s ← rest | failure
  let flags ← flags
  match c with
  | '\\' => escape s
  | '.' => do
    leave s
    return .dot
  | '^' => do
    leave s
    return .look <|
      if !flags.multiLine then .textStart
      else if flags.returns then .returnLineStart
      else .lineStart
  | '$' => do
    leave s
    return .look <|
      if !flags.multiLine then .textEnd
      else if flags.returns then .returnLineEnd
      else .lineEnd
  | c => do
    leave s
    return .char c

/-- The set with the letters of either case, if the flags ask for it. -/
def foldIf (flags : Flags) (a : CharSet) : CharSet :=
  if !flags.ignoreCase then a else if flags.allScripts then a.foldCase else a.foldPlain

/-- What an atom says under the flags in force. Without the characters of all
    scripts there is no dot: it would match parts of characters. -/
def exprOf (a : Atom) : Reader Expr := do
  let flags ← flags
  match a with
  | .char c => return .ofSet (foldIf flags (.single c))
  | .set a => return .ofSet a
  | .look l => return .look l
  | .dot =>
    if !flags.allScripts then failure
    else if flags.dotAll then return .ofSet .all
    else if flags.returns then return .ofSet (.allBut ['\r', '\n'])
    else return .ofSet (.allBut ['\n'])

end Reader

end Lineage.Pattern
