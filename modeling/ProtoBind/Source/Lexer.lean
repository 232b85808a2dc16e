import ProtoBind.Source.Token
import ProtoBind.Text.IdentifierClass
import ProtoBind.Text.Blank
import ProtoBind.Text.Quoted

/-!
# Reading tokens

`lex` turns a source text into tokens. Blanks and plain comments vanish; a documentation comment
becomes the attribute that it stands for.
-/

set_option autoImplicit false

namespace ProtoBind.Source

open Text

abbrev Cut := Option (List Char × List Char)

def afterLead : List Char → List Char → Option (List Char)
  | [], cs => some cs
  | _ :: _, [] => none
  | p :: lead, c :: cs => if p = c then afterLead lead cs else none

def leads (lead : String) (cs : List Char) : Bool := (afterLead lead.toList cs).isSome

/-- The text up to the end of its line, and the rest from the newline on; a carriage return before the
newline belongs to neither. -/
def cutLine : List Char → List Char × List Char
  | [] => ([], [])
  | '\n' :: cs => ([], '\n' :: cs)
  | '\r' :: '\n' :: cs => ([], '\n' :: cs)
  | c :: cs =>
    let (line, rest) := cutLine cs
    (c :: line, rest)

/-- The text up to the end of a block comment so many levels deep, and what follows the comment. -/
def cutBlock : Nat → List Char → Cut
  | _, [] => none
  | depth, '/' :: '*' :: cs =>
    (cutBlock (depth + 1) cs).map fun (inner, rest) => ('/' :: '*' :: inner, rest)
  | 0, '*' :: '/' :: cs => some ([], cs)
  | depth + 1, '*' :: '/' :: cs =>
    (cutBlock depth cs).map fun (inner, rest) => ('*' :: '/' :: inner, rest)
  | depth, c :: cs => (cutBlock depth cs).map fun (inner, rest) => (c :: inner, rest)

def isSpacing (c : Char) : Bool :=
  isBlank c && c != '\r' || c.toNat == 0x200E || c.toNat == 0x200F

/-- What follows one blank or plain comment at the start of a text, if there is one. -/
def dropSpacing : List Char → Option (List Char)
  | '/' :: '/' :: cs =>
    if (leads "/" cs && !leads "//" cs) || leads "!" cs then none else some (cutLine cs).2
  | '/' :: '*' :: '*' :: '/' :: cs => some cs
  | '/' :: '*' :: cs =>
    if (leads "*" cs && !leads "**" cs) || leads "!" cs then none
    else (cutBlock 0 cs).map Prod.snd
  | '\r' :: '\n' :: cs => some cs
  | c :: cs => if isSpacing c then some cs else none
  | [] => none

def carriagesPaired : List Char → Bool
  | [] => true
  | '\r' :: '\n' :: cs => carriagesPaired cs
  | '\r' :: _ => false
  | _ :: cs => carriagesPaired cs

structure DocComment where
  /-- Whether it belongs to what is around it. -/
  inner : Bool
  text : List Char

/-- A documentation comment at the start of a text, and what follows it. -/
def cutDocComment (cs : List Char) : Option (DocComment × List Char) :=
  let cut : Option (DocComment × List Char) :=
    match cs with
    | '/' :: '/' :: '!' :: cs =>
      let (line, rest) := cutLine cs
      some (⟨true, line⟩, rest)
    | '/' :: '*' :: '!' :: cs => (cutBlock 0 cs).map fun (text, rest) => (⟨true, text⟩, rest)
    | '/' :: '/' :: '/' :: cs =>
      if leads "/" cs then none
      else
        let (line, rest) := cutLine cs
        some (⟨false, line⟩, rest)
    | '/' :: '*' :: '*' :: cs =>
      if leads "*" cs || leads "/" cs then none
      else (cutBlock 0 cs).map fun (text, rest) => (⟨false, text⟩, rest)
    | _ => none
  match cut with
  | some (comment, rest) => if carriagesPaired comment.text then some (comment, rest) else none
  | none => none

/-- The written form of a character in the literal of a documentation comment, before `next`. -/
def docLiteralChar (c : Char) (next : Option Char) : List Char :=
  if c = '\x00' ∧ next.any (fun d => decide ('0' ≤ d ∧ d ≤ '7')) then ['\x5c', 'x', '0', '0']
  else Quoted.encodeChar c

def docLiteralBody : List Char → List Char
  | [] => []
  | c :: cs => docLiteralChar c cs.head? ++ docLiteralBody cs

def DocComment.tokens (comment : DocComment) : List Token :=
  .mark '#' false :: (if comment.inner then [.mark '!' false] else [])
    ++ [.group .bracket [.word "doc", .mark '=' false,
      .literal (String.ofList ('\x22' :: (docLiteralBody comment.text ++ ['\x22'])))]]

def cutWord : List Char → Cut
  | [] => none
  | c :: cs =>
    if isIdentifierStart c then some (c :: cs.takeWhile isIdentifierRest, cs.dropWhile isIdentifierRest)
    else none

/-- What follows the suffix of a literal: an identifier that stands there at once is part of it. -/
def dropSuffix (cs : List Char) : List Char :=
  match cutWord cs with
  | some (_, rest) => rest
  | none => cs

/-- What stands in a text before its end `rest`. -/
def takenFrom (whole rest : List Char) : List Char := whole.take (whole.length - rest.length)

/-- What follows a number sign run of this length, if there is one. -/
def dropSigns : Nat → List Char → Option (List Char)
  | 0, cs => some cs
  | n + 1, '#' :: cs => dropSigns n cs
  | _ + 1, _ => none

/-- The rest of a text behind the end of a raw string that so many number signs delimit. -/
def dropRaw (signs : Nat) : List Char → Option (List Char)
  | [] => none
  | '\x22' :: cs =>
    match dropSigns signs cs with
    | some rest => some rest
    | none => dropRaw signs cs
  | '\r' :: '\n' :: cs => dropRaw signs cs
  | '\r' :: _ => none
  | _ :: cs => dropRaw signs cs

/-- The rest of a text behind a raw string whose `r` has been read. -/
def dropRawString (cs : List Char) : Option (List Char) :=
  let signs := (cs.takeWhile (· == '#')).length
  match cs.drop signs with
  | '\x22' :: rest => if signs ≤ 255 then dropRaw signs rest else none
  | _ => none

/-- The rest of a text behind the digits of an escape `\u` whose brace has been read. -/
def dropBraced (digits value : Nat) : List Char → Option (List Char)
  | [] => none
  | c :: cs =>
    if c = '\x7d' then if 0 < digits ∧ value.isValidChar then some cs else none
    else if c = '_' then if 0 < digits then dropBraced digits value cs else none
    else match Quoted.hexValue c with
      | some h => if digits < 6 then dropBraced (digits + 1) (16 * value + h) cs else none
      | none => none

/-- The rest of a text behind what a backslash begins inside quotes. A byte has no escape `\u` and may
be any number of two digits. -/
def dropEscape (isByte : Bool) : List Char → Option (List Char)
  | 'x' :: high :: low :: cs =>
    match Quoted.hexValue high, Quoted.hexValue low with
    | some h, some _ => if isByte ∨ h < 8 then some cs else none
    | _, _ => none
  | 'u' :: '\x7b' :: cs => if isByte then none else dropBraced 0 0 cs
  | c :: cs => if (Quoted.shortEscape c).isSome then some cs else none
  | [] => none

/-- The rest of a text behind a character or byte whose opening quote has been read. -/
def dropCharacter (isByte : Bool) (cs : List Char) : Option (List Char) :=
  let rest : Option (List Char) :=
    match cs with
    | '\x5c' :: cs => dropEscape isByte cs
    | c :: cs => if isByte ∧ 128 ≤ c.toNat then none else some cs
    | [] => none
  match rest with
  | some ('\x27' :: rest) => some rest
  | _ => none

/-- The rest of a text behind the blanks that follow a backslash at the end of a line. -/
def dropGap : List Char → Option (List Char)
  | ' ' :: cs | '\t' :: cs | '\n' :: cs | '\r' :: '\n' :: cs => dropGap cs
  | '\r' :: _ | [] => none
  | c :: cs => some (c :: cs)

/-- The rest of a text behind a byte string whose opening quote has been read. -/
def dropByteString : Nat → List Char → Option (List Char)
  | 0, _ => none
  | _ + 1, [] => none
  | _ + 1, '\x22' :: cs => some cs
  | fuel + 1, '\r' :: '\n' :: cs => dropByteString fuel cs
  | _ + 1, '\r' :: _ => none
  | fuel + 1, '\x5c' :: '\n' :: cs => (dropGap cs).bind (dropByteString fuel)
  | fuel + 1, '\x5c' :: '\r' :: '\n' :: cs => (dropGap cs).bind (dropByteString fuel)
  | fuel + 1, '\x5c' :: cs => (dropEscape true cs).bind (dropByteString fuel)
  | fuel + 1, c :: cs => if c.toNat < 128 then dropByteString fuel cs else none

/-- The rest of a text behind a quoted literal at its start, without the suffix. -/
def dropQuoted : List Char → Option (List Char)
  | '\x22' :: cs => (Quoted.read .plain cs).map Prod.snd
  | 'r' :: cs => dropRawString cs
  | 'b' :: '\x22' :: cs => dropByteString (cs.length + 1) cs
  | 'b' :: 'r' :: cs =>
    (dropRawString cs).filter fun rest => (takenFrom cs rest).all fun c => c.toNat < 128
  | 'b' :: '\x27' :: cs => dropCharacter true cs
  | 'c' :: '\x22' :: cs => (Quoted.read .plain cs).map Prod.snd
  | 'c' :: 'r' :: cs => dropRawString cs
  | '\x27' :: cs => dropCharacter false cs
  | _ => none

def cutQuoted (cs : List Char) : Cut :=
  (dropQuoted cs).map fun rest =>
    let rest := dropSuffix rest
    (takenFrom cs rest, rest)

/-- The rest of a text behind the exponent of a number, if there is one. -/
def dropExponent (hasSign hasDigit : Bool) : List Char → Option (List Char)
  | [] => if hasDigit then some [] else none
  | c :: cs =>
    if c = '+' ∨ c = '-' then
      if hasDigit then some (c :: cs) else if hasSign then none else dropExponent true hasDigit cs
    else if c.isDigit then dropExponent hasSign true cs
    else if c = '_' then dropExponent hasSign hasDigit cs
    else if hasDigit then some (c :: cs)
    else none

/-- Whether a character may stand between the first digit of a number and its point or exponent. -/
def isDigitOrUnderscore (c : Char) : Bool := c.isDigit || c == '_'

/-- The rest of a text behind a number with a point or an exponent. -/
def dropFloat (cs : List Char) : Option (List Char) :=
  match cs with
  | [] => none
  | c :: _ =>
    if !c.isDigit then none
    else
      let exponent (cs : List Char) (otherwise : Option (List Char)) : Option (List Char) :=
        match dropExponent false false cs with
        | some rest => some rest
        | none => otherwise
      match cs.dropWhile isDigitOrUnderscore with
      | '.' :: rest =>
        if rest.head?.any fun d => d == '.' || isIdentifierStart d then none
        else
          match rest.dropWhile isDigitOrUnderscore with
          | 'e' :: more => exponent more (some ('e' :: more))
          | 'E' :: more => exponent more (some ('E' :: more))
          | rest => some rest
      | 'e' :: more | 'E' :: more => exponent more none
      | _ => none

/-- The rest of a text behind the digits of a whole number in some base. -/
def dropDigits (base : Nat) (isEmpty : Bool) : List Char → Option (List Char)
  | [] => if isEmpty then none else some []
  | c :: cs =>
    if c = '_' then
      if isEmpty ∧ base = 10 then none else dropDigits base isEmpty cs
    else match Quoted.hexValue c with
      | none => if isEmpty then none else some (c :: cs)
      | some value =>
        if value < base then dropDigits base false cs
        else if c.isDigit ∨ isEmpty then none
        else some (c :: cs)

def dropInteger : List Char → Option (List Char)
  | '0' :: 'x' :: cs => dropDigits 16 true cs
  | '0' :: 'o' :: cs => dropDigits 8 true cs
  | '0' :: 'b' :: cs => dropDigits 2 true cs
  | cs => dropDigits 10 true cs

/-- A number with its suffix, given what follows its digits. Nothing that could go on an identifier may
follow it. -/
def numberBefore (cs rest : List Char) : Cut :=
  let rest := dropSuffix rest
  if rest.head?.any isIdentifierRest then none else some (takenFrom cs rest, rest)

def cutNumber (cs : List Char) : Cut :=
  match (dropFloat cs).bind (numberBefore cs) with
  | some cut => some cut
  | none => (dropInteger cs).bind (numberBefore cs)

def markChars : List Char := "~!@#$%^&*-=+|;:,<.>/?'".toList

/-- Whether the text begins with a mark: no comment begins with one. -/
def beginsMark : List Char → Bool
  | '/' :: '/' :: _ | '/' :: '*' :: _ => false
  | c :: _ => markChars.contains c
  | [] => false

def plainWords : List String := ["_", "super", "self", "Self", "crate"]

def cutIdentifier : List Char → Cut
  | 'r' :: '#' :: cs =>
    match cutWord cs with
    | some (name, rest) =>
      if plainWords.contains (String.ofList name) then none else some ('r' :: '#' :: name, rest)
    | none => none
  | cs => cutWord cs

def literalLeads : List String :=
  ["r\"", "r#\"", "r##", "b\"", "b'", "br\"", "br#", "c\"", "cr\"", "cr#"]

/-- A mark at the start of a text. A quote is one only before a name that no quote ends. -/
def cutMark (cs : List Char) : Option (Token × List Char) :=
  match cs with
  | '\x27' :: rest =>
    match cutIdentifier rest with
    | none => none
    | some (_, after) =>
      if leads "'" after || (leads "#" after && !leads "r#" rest) then none
      else some (.mark '\x27' true, rest)
  | c :: rest => if beginsMark cs then some (.mark c (beginsMark rest), rest) else none
  | [] => none

def cutToken (cs : List Char) : Option (Token × List Char) :=
  match cutQuoted cs with
  | some (text, rest) => some (.literal (String.ofList text), rest)
  | none =>
    match cutNumber cs with
    | some (text, rest) => some (.literal (String.ofList text), rest)
    | none =>
      match cutMark cs with
      | some cut => some cut
      | none =>
        if literalLeads.any fun lead => leads lead cs then none
        else (cutIdentifier cs).map fun (name, rest) => (.word (String.ofList name), rest)

def opened? (c : Char) : Option Delimiter :=
  if c = '(' then some .parenthesis
  else if c = '\x7b' then some .brace
  else if c = '[' then some .bracket
  else none

def closed? (c : Char) : Option Delimiter :=
  if c = ')' then some .parenthesis
  else if c = '\x7d' then some .brace
  else if c = ']' then some .bracket
  else none

/-- Reads tokens inside groups that are still open. `read` are the tokens before, the last one first;
each open group comes with the tokens before it. -/
def lexFrom : Nat → List (Delimiter × List Token) → List Token → List Char → Option (List Token)
  | 0, _, _, _ => none
  | _ + 1, opened, read, [] => if opened.isEmpty then some read.reverse else none
  | fuel + 1, opened, read, c :: cs =>
    match dropSpacing (c :: cs) with
    | some rest => lexFrom fuel opened read rest
    | none =>
      match cutDocComment (c :: cs) with
      | some (comment, rest) => lexFrom fuel opened (comment.tokens.reverse ++ read) rest
      | none =>
        match opened? c, closed? c, opened with
        | some delimiter, _, _ => lexFrom fuel ((delimiter, read) :: opened) [] cs
        | none, some _, [] => none
        | none, some delimiter, (expected, outer) :: opened =>
          if delimiter = expected then
            lexFrom fuel opened (.group delimiter read.reverse :: outer) cs
          else none
        | none, none, opened =>
          match cutToken (c :: cs) with
          | none => none
          | some (token, rest) => lexFrom fuel opened (token :: read) rest

/-- The tokens of a source text, if it has any reading. Every step takes a character at least. -/
def lex (cs : List Char) : Option (List Token) := lexFrom (cs.length + 1) [] [] cs

end ProtoBind.Source
