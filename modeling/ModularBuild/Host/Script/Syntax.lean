/-! Shell scripts, as far as small stand-ins for programs need them: words with quotes and
parameters, redirections, and loops over words. -/

namespace ModularBuild.Script

inductive Piece
  | literal (cs : List Char)
  | parameter (name : List Char)
  deriving DecidableEq, Repr

abbrev Word := List Piece

inductive Target
  | file (append : Bool)
  | descriptor
  deriving DecidableEq, Repr

inductive Token
  | word (w : Word)
  | redirect (descriptor : Nat) (target : Target)
  | newline
  deriving DecidableEq, Repr

/-- A descriptor that is sent to a file or to what another descriptor stands for. -/
structure Redirect where
  descriptor : Nat
  target : Target
  word : Word

inductive Command
  | simple (words : List Word) (redirects : List Redirect)
  | forEach (name : List Char) (words : List Word) (body : List Command)
      (redirects : List Redirect)

/-! ## Words -/

inductive Mode
  | plain
  | escaped
  | single
  | double
  | doubleEscaped
  | comment
  | name (inDouble : Bool) (so_far : List Char)
  | braced (inDouble : Bool) (so_far : List Char)
  | angle (descriptor : Nat)
  deriving DecidableEq, Repr

/-- The lexer between two characters: its mode, the word that is being read, and the tokens
read so far, last first. -/
structure Lexer where
  mode : Mode
  word : Option Word
  tokens : List Token

namespace Lexer

def addPiece (l : Lexer) (p : Piece) : Lexer := { l with word := some (l.word.getD [] ++ [p]) }

def addChar (l : Lexer) (c : Char) : Lexer := l.addPiece (.literal [c])

def enter (l : Lexer) (mode : Mode) : Lexer := { l with mode }

def emit (l : Lexer) (t : Token) : Lexer := { l with tokens := t :: l.tokens }

def flush (l : Lexer) : Lexer :=
  match l.word with
  | some w => { l with word := none, tokens := .word w :: l.tokens }
  | none => l

/-- A digit right before an angle bracket is a descriptor; without one it is the output. -/
def startRedirect (l : Lexer) : Lexer :=
  match l.word with
  | some [.literal [c]] =>
    if c.isDigit then { l with word := none, mode := .angle (c.toNat - 48) }
    else l.flush.enter (.angle 1)
  | _ => l.flush.enter (.angle 1)

def plainStep (l : Lexer) (c : Char) : Lexer :=
  if c = '\n' || c = ';' then l.flush.emit .newline
  else if c = ' ' || c = '\t' then l.flush
  else if c = '\'' then { l with mode := .single, word := some (l.word.getD []) }
  else if c = '"' then { l with mode := .double, word := some (l.word.getD []) }
  else if c = '\\' then l.enter .escaped
  else if c = '$' then l.enter (.name false [])
  else if c = '>' then l.startRedirect
  else if c = '#' && l.word.isNone then l.enter .comment
  else l.addChar c

def doubleStep (l : Lexer) (c : Char) : Lexer :=
  if c = '"' then l.enter .plain
  else if c = '\\' then l.enter .doubleEscaped
  else if c = '$' then l.enter (.name true [])
  else l.addChar c

def isNameChar (c : Char) : Bool := c.isAlphanum || c == '_'

def resume (inDouble : Bool) : Mode := if inDouble then .double else .plain

def step (l : Lexer) (c : Char) : Lexer :=
  let again (l : Lexer) (inDouble : Bool) :=
    let l := l.enter (resume inDouble)
    if inDouble then l.doubleStep c else l.plainStep c
  match l.mode with
  | .plain => l.plainStep c
  | .escaped => if c = '\n' then l.enter .plain else (l.addChar c).enter .plain
  | .single => if c = '\'' then l.enter .plain else l.addChar c
  | .double => l.doubleStep c
  | .doubleEscaped =>
    let l := l.enter .double
    if c = '\n' then l
    else if c = '$' || c = '"' || c = '\\' || c.toNat = 96 then l.addChar c
    else (l.addChar '\\').addChar c
  | .comment => if c = '\n' then (l.enter .plain).plainStep c else l
  | .name inDouble [] =>
    if c = '\x7b' then l.enter (.braced inDouble [])
    else if "@*#?$".toList.contains c || c.isDigit then
      (l.addPiece (.parameter [c])).enter (resume inDouble)
    else if isNameChar c then l.enter (.name inDouble [c])
    else again (l.addChar '$') inDouble
  | .name inDouble soFar =>
    if isNameChar c then l.enter (.name inDouble (soFar ++ [c]))
    else again (l.addPiece (.parameter soFar)) inDouble
  | .braced inDouble soFar =>
    if c = '\x7d' then (l.addPiece (.parameter soFar)).enter (resume inDouble)
    else l.enter (.braced inDouble (soFar ++ [c]))
  | .angle descriptor =>
    if c = '>' then (l.emit (.redirect descriptor (.file true))).enter .plain
    else if c = '&' then (l.emit (.redirect descriptor .descriptor)).enter .plain
    else ((l.emit (.redirect descriptor (.file false))).enter .plain).plainStep c

end Lexer

def tokens (source : List Char) : List Token :=
  let l := (source ++ ['\n']).foldl Lexer.step ⟨.plain, none, []⟩
  l.tokens.reverse

/-! ## Commands -/

def Word.is (w : Word) (s : String) : Bool :=
  w.all (fun p => match p with
    | .literal _ => true
    | .parameter _ => false) &&
  w.flatMap (fun p => match p with
    | .literal cs => cs
    | .parameter _ => []) == s.toList

/-- The words and redirections up to the end of a command. -/
def operands : List Token → List Word × List Redirect × List Token
  | [] => ([], [], [])
  | .newline :: rest => ([], [], rest)
  | .word w :: rest =>
    let (words, redirects, rest) := operands rest
    (w :: words, redirects, rest)
  | .redirect descriptor target :: .word w :: rest =>
    let (words, redirects, rest) := operands rest
    (words, ⟨descriptor, target, w⟩ :: redirects, rest)
  | .redirect .. :: rest => operands rest

def skipNewlines : List Token → List Token
  | .newline :: rest => skipNewlines rest
  | ts => ts

/-- Reads commands up to the end, or up to the word that closes a loop. Each step takes a
token, so the number of tokens is fuel enough. -/
def commands : Nat → List Token → List Command × List Token
  | 0, _ => ([], [])
  | _, [] => ([], [])
  | fuel + 1, .newline :: rest => commands fuel rest
  | fuel + 1, .word w :: rest =>
    if Word.is w "done" then ([], rest)
    else if Word.is w "for" then
      match rest with
      | .word [.literal c] :: .word _ :: rest =>
        let (words, _, rest) := operands rest
        let (body, rest) := commands fuel ((skipNewlines rest).drop 1)
        let (_, redirects, rest) := operands rest
        let (after, rest) := commands fuel rest
        (.forEach c words body redirects :: after, rest)
      | _ => ([], [])
    else
      let (words, redirects, rest) := operands (.word w :: rest)
      let (after, rest) := commands fuel rest
      (.simple words redirects :: after, rest)
  | fuel + 1, rest =>
    let (words, redirects, rest) := operands rest
    let (after, rest) := commands fuel rest
    (.simple words redirects :: after, rest)

def parse (source : List Char) : List Command :=
  let ts := tokens source
  (commands (ts.length + 1) ts).1

end ModularBuild.Script
