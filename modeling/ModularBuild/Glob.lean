/-! Glob patterns over slash-separated names. A pattern is read once into tokens; matching
never lets a wildcard cross a slash, except for the one that stands for whole directories.
Upper and lower case of the letters A to Z are the same. -/

namespace ModularBuild

/-- A member of a bracketed set. -/
inductive CharSet
  | single (c : Char)
  | range (lo hi : Char)
  deriving DecidableEq, Repr

/-- Equal up to the case of the letters A to Z. -/
def sameLetter (a b : Char) : Bool := a.toLower == b.toLower

/-- A range from letter to letter holds both cases of its letters. -/
def CharSet.contains (c : Char) : CharSet → Bool
  | single x => sameLetter c x
  | range lo hi =>
    (lo ≤ c && c ≤ hi) ||
    (lo.isAlpha && hi.isAlpha && lo.toLower ≤ c.toLower && c.toLower ≤ hi.toLower)

inductive GlobToken
  | char (c : Char)
  | anyChar
  | anyOf (sets : List CharSet)
  | noneOf (sets : List CharSet)
  | anySequence
  | anyDirectories
  deriving DecidableEq, Repr

/-- Why a text is no pattern, and the position where this shows. -/
inductive GlobFault
  | threeStars (position : Nat)
  | partialDirectory (position : Nat)
  | invalidRange (position : Nat)
  deriving DecidableEq, Repr

namespace GlobFault

def position : GlobFault → Nat
  | threeStars n | partialDirectory n | invalidRange n => n

def reason : GlobFault → String
  | threeStars _ => "wildcards are either regular `*` or recursive `**`"
  | partialDirectory _ => "recursive wildcards must form a single path component"
  | invalidRange _ => "invalid range pattern"

def message (fault : GlobFault) : String :=
  "Pattern syntax error near position " ++ toString fault.position ++ ": " ++ fault.reason

end GlobFault

structure Glob where
  source : String
  tokens : List GlobToken
  deriving DecidableEq, Repr

namespace Glob

/-- The members of a bracketed set; three characters with a dash in the middle are a range. -/
def charSets : List Char → List CharSet
  | lo :: '-' :: hi :: rest => .range lo hi :: charSets rest
  | c :: rest => .single c :: charSets rest
  | [] => []

/-- The text up to the first closing bracket, and what follows that bracket. The first
character never closes the set. -/
def bracketed : List Char → Option (List Char × List Char)
  | [] => none
  | first :: rest =>
    let inner := rest.takeWhile (· != ']')
    match rest.drop inner.length with
    | [] => none
    | _close :: after => some (first :: inner, after)

/-- A wildcard for directories right after another one says nothing new, unless it is the
second token of all. -/
def addDirectories (tokens : List GlobToken) : List GlobToken :=
  match tokens with
  | .anyDirectories :: _ :: _ => tokens
  | _ => .anyDirectories :: tokens

/-- Reads the pattern from a position on. `before` is the character before that position,
and `tokens` are those read so far, last first. Each step shortens the rest, so the fuel
never runs out. -/
def read : Nat → Nat → Option Char → List Char → List GlobToken →
    Except GlobFault (List GlobToken)
  | 0, _, _, _, tokens => .ok tokens.reverse
  | _, _, _, [], tokens => .ok tokens.reverse
  | fuel + 1, pos, before, c :: rest, tokens =>
    if c = '?' then read fuel (pos + 1) (some c) rest (.anyChar :: tokens)
    else if c = '*' then
      let stars := (rest.takeWhile (· == '*')).length + 1
      let after := rest.drop (stars - 1)
      if stars = 1 then read fuel (pos + 1) (some c) rest (.anySequence :: tokens)
      else if 2 < stars then .error (.threeStars (pos + 2))
      else if before.isSome && before != some '/' then .error (.partialDirectory (pos - 1))
      else match after with
        | [] => .ok (addDirectories tokens).reverse
        | '/' :: after => read fuel (pos + 3) (some '/') after (addDirectories tokens)
        | _ => .error (.partialDirectory (pos + 2))
    else if c = '[' then
      match rest with
      | '!' :: inner =>
        match bracketed inner with
        | some (members, after) =>
          read fuel (pos + members.length + 3) (some ']') after
            (.noneOf (charSets members) :: tokens)
        | none => .error (.invalidRange pos)
      | inner =>
        match bracketed inner with
        | some (members, after) =>
          read fuel (pos + members.length + 2) (some ']') after
            (.anyOf (charSets members) :: tokens)
        | none => .error (.invalidRange pos)
    else read fuel (pos + 1) (some c) rest (.char c :: tokens)

def parse (source : String) : Except GlobFault Glob := do
  return ⟨source, ← read source.length 0 none source.toList []⟩

/-- How an attempt ends: with a match, or without one. After `overrun` the text is too short
for the rest of the pattern, so a longer piece for an earlier wildcard cannot help either. -/
inductive Outcome
  | hit
  | miss
  | overrun
  deriving DecidableEq, Repr

def GlobToken.accepts (c : Char) : GlobToken → Bool
  | .char x => sameLetter c x
  | .anyChar => c != '/'
  | .anyOf sets => c != '/' && sets.any (·.contains c)
  | .noneOf sets => c != '/' && !sets.any (·.contains c)
  | .anySequence | .anyDirectories => false

/-- Tries a wildcard with every piece it may stand for, the shortest first. `rest` matches
what the piece leaves over. -/
def widen (rest : List Char → Outcome) (directories : Bool) : List Char → Outcome
  | [] => rest []
  | c :: cs =>
    if directories then
      if c = '/' then
        match rest cs with
        | .miss => widen rest directories cs
        | outcome => outcome
      else widen rest directories cs
    else if c = '/' then .miss
    else match rest cs with
      | .miss => widen rest directories cs
      | outcome => outcome

def run : List GlobToken → List Char → Outcome
  | [], cs => if cs.isEmpty then .hit else .miss
  | .anySequence :: tokens, cs =>
    match run tokens cs with
    | .miss => widen (run tokens) false cs
    | outcome => outcome
  | .anyDirectories :: tokens, cs =>
    match run tokens cs with
    | .miss => widen (run tokens) true cs
    | outcome => outcome
  | _ :: _, [] => .overrun
  | token :: tokens, c :: cs => if GlobToken.accepts c token then run tokens cs else .miss

/-- The text with its special characters put between brackets, where they stand for
themselves. -/
def escape (s : String) : String :=
  String.ofList <| s.toList.flatMap fun c =>
    if c = '?' || c = '*' || c = '[' || c = ']' then ['[', c, ']'] else [c]

def accepts (g : Glob) (name : String) : Bool := run g.tokens name.toList == .hit

end Glob
end ModularBuild
