import ModuleLowering.Pattern.Parse
import ModuleLowering.Text.Case

/-!
# Matching

Whether a pattern matches somewhere in a text. Alternatives are tried in order, and a repetition
goes on or stops as its greed says; whatever is left of the pattern is handed on as what has to
match next, so that a choice is taken back when the rest fails.
-/

set_option autoImplicit false

namespace ModuleLowering.Pattern

/-- How code points are compared and classed. -/
structure Mode where
  ignoreCase : Bool
  multiline : Bool
  dotAll : Bool
  ascii : Bool

namespace Mode

/-- The mode of a whole pattern. -/
def ofFlags (flags : List Flag) : Mode :=
  ⟨flags.contains .ignoreCase, flags.contains .multiline, flags.contains .dotAll,
    flags.contains .ascii⟩

/-- The mode inside a group that turns flags on and off. -/
def within (m : Mode) (on off : List Flag) : Mode :=
  let switch (old : Bool) (f : Flag) : Bool := (old || on.contains f) && !off.contains f
  ⟨switch m.ignoreCase .ignoreCase, switch m.multiline .multiline, switch m.dotAll .dotAll,
    if on.contains .ascii then true else if on.contains .unicode then false else m.ascii⟩

/-- Whether a code point belongs to a class. -/
def holds (m : Mode) (k : Category) (c : CodePoint) : Bool :=
  match k with
  | .digit => if m.ascii then c.isAsciiDigit else c.isDecimal
  | .space => if m.ascii then c = ' ' || (0x09 ≤ c.val && c.val ≤ 0x0D) else c.isBlank
  | .word =>
    if m.ascii then c.isAsciiLetter || c.isAsciiDigit || c = '_' else c.isWord

/-- The code points, given by number, that count as the same as one in the text. -/
def readings (m : Mode) (c : CodePoint) : List Nat :=
  if m.ignoreCase then c.val :: CodePoint.sameLetter m.ascii c.val else [c.val]

/-- Whether two code points of texts count as the same. -/
def alike (m : Mode) (c d : CodePoint) : Bool :=
  if m.ignoreCase then
    CodePoint.lowerOf m.ascii c.val = CodePoint.lowerOf m.ascii d.val
  else c = d

/-- Whether a member of a set matches a code point. -/
def admits (m : Mode) (c : CodePoint) : Member → Bool
  | .literal d => (m.readings c).contains d.val
  | .range low high => (m.readings c).any fun n => low.val ≤ n && n ≤ high.val
  | .category k negated => m.holds k c != negated

end Mode

/-- A place in a text, with what groups have matched so far. -/
structure Place where
  /-- The text before the place, backwards. -/
  before : Text
  after : Text
  groups : List (Nat × Text) := []

namespace Place

/-- How far a place is from the start. -/
def offset (p : Place) : Nat := p.before.length

/-- The place after the next code point, if that passes the test. -/
def step? (p : Place) (test : CodePoint → Bool) : Option Place :=
  match p.after with
  | [] => none
  | c :: rest => if test c then some { p with before := c :: p.before, after := rest } else none

/-- The place `count` code points further back. -/
def back? (p : Place) (count : Nat) : Option Place :=
  if p.before.length < count then none
  else
    some { p with
      before := p.before.drop count
      after := (p.before.take count).reverse ++ p.after }

/-- The text between an earlier place and this one. -/
def since (p earlier : Place) : Text := earlier.after.take (p.offset - earlier.offset)

/-- The place with what a group has matched. -/
def capture (p : Place) (number : Nat) (earlier : Place) : Place :=
  { p with groups := (number, p.since earlier) :: p.groups }

def group? (p : Place) (number : Nat) : Option Text :=
  (p.groups.find? (·.1 = number)).map (·.2)

/-- The place after a text that counts as the same as a given one. -/
def stepText? (m : Mode) : Text → Place → Option Place
  | [], p => some p
  | c :: rest, p => (p.step? (m.alike c)).bind (stepText? m rest)

/-- Whether a word starts or ends here. -/
def atBoundary (m : Mode) (p : Place) : Bool :=
  let isWord (t : Text) : Bool := (t.head?.map (m.holds .word)).getD false
  isWord p.before != isWord p.after

/-- Whether an anchor holds here. An empty text has no boundaries, nor places without one. -/
def satisfies (m : Mode) (p : Place) (a : Anchor) : Bool :=
  let breaks (t : Text) : Bool := t.head? = some ('\n' : CodePoint)
  let isEmpty := p.before.isEmpty && p.after.isEmpty
  match a with
  | .textStart => p.before.isEmpty
  | .textEnd => p.after.isEmpty
  | .lineStart => p.before.isEmpty || (m.multiline && breaks p.before)
  | .lineEnd =>
    p.after.isEmpty || (breaks p.after && (m.multiline || p.after.length = 1))
  | .boundary => !isEmpty && p.atBoundary m
  | .noBoundary => !isEmpty && !p.atBoundary m

end Place

/-- What has to match next, and the place where everything has matched. -/
abbrev Next := Place → Option Place

/-- Something to match: it is told what has to match next. -/
abbrev Matcher := Next → Place → Option Place

/-- The place where something alone first matches to. -/
def Matcher.alone (body : Matcher) : Place → Option Place := body some

/-- Whether a repetition may go on after `count` times. -/
def mayGoOn (most : Option Nat) (count : Nat) : Bool :=
  match most with
  | none => true
  | some n => count < n

/-- A repetition in at most `fuel` more steps. Once it may stop it goes on only if the last time
has read something; `last` is where that began. -/
def repeatFrom (body : Matcher) (reluctant : Bool) (least : Nat) (most : Option Nat) (next : Next) :
    Nat → Nat → Option Nat → Place → Option Place
  | 0, _, _, p => next p
  | fuel + 1, count, last, p =>
    if count < least then
      body (fun q =>
        let count := if q.offset = p.offset then least else count + 1
        repeatFrom body reluctant least most next fuel count last q) p
    else
      let more (_ : Unit) : Option Place :=
        if mayGoOn most count && last ≠ some p.offset then
          body (repeatFrom body reluctant least most next fuel (count + 1) (some p.offset)) p
        else none
      if reluctant then (next p).or (more ()) else (more ()).or (next p)

/-- A repetition that gives nothing back, in at most `fuel` more steps. -/
def repeatAlone (body : Matcher) (least : Nat) (most : Option Nat) :
    Nat → Nat → Option Nat → Place → Option Place
  | 0, _, _, p => some p
  | fuel + 1, count, last, p =>
    if count < least then
      (body.alone p).bind fun q =>
        let count := if q.offset = p.offset then least else count + 1
        repeatAlone body least most fuel count last q
    else if mayGoOn most count && last ≠ some p.offset then
      match body.alone p with
      | some q => repeatAlone body least most fuel (count + 1) (some p.offset) q
      | none => some p
    else some p

/-- Steps enough for any repetition: each one reads something, but for two. -/
def stepLimit (p : Place) : Nat := 2 * p.after.length + 4

def repeated (greed : Greed) (least : Nat) (most : Option Nat) (body : Matcher) : Matcher :=
  fun next p =>
    match greed with
    | .greedy => repeatFrom body false least most next (stepLimit p) 0 none p
    | .reluctant => repeatFrom body true least most next (stepLimit p) 0 none p
    | .possessive => (repeatAlone body least most (stepLimit p) 0 none p).bind next

/-- What looks ahead, or back by a width. -/
def look (back : Nat) (negated : Bool) (body : Matcher) : Matcher := fun next p =>
  let found := (p.back? back).bind body.alone
  if negated then if found.isSome then none else next p
  else found.bind fun q => next { p with groups := q.groups }

mutual

/-- A part of a pattern as something to match. -/
def Item.matcher (widths : List (Option Width)) : Item → Mode → Matcher
  | .literal c, m => fun next p => (p.step? fun d => (m.readings d).contains c.val).bind next
  | .any, m => fun next p => (p.step? fun c => m.dotAll || c ≠ '\n').bind next
  | .set negated members, m => fun next p =>
    (p.step? fun c => members.any (m.admits c) != negated).bind next
  | .anchor a, m => fun next p => if p.satisfies m a then next p else none
  | .choice alternatives, m => choiceMatcher widths alternatives m
  | .repeated greed least most body, m => repeated greed least most (matcher widths body m)
  | .group number on off body, m => fun next p =>
    matcher widths body (m.within on off)
      (fun q =>
        match number with
        | some n => next (q.capture n p)
        | none => next q) p
  | .atomic body, m => fun next p => ((matcher widths body m).alone p).bind next
  | .look behind negated body, m =>
    look (if behind then (width widths body).least else 0) negated (matcher widths body m)
  | .backreference number, m => fun next p =>
    (p.group? number).bind fun t => (Place.stepText? m t p).bind next
  | .conditional number yes no, m => fun next p =>
    if (p.group? number).isSome then matcher widths yes m next p
    else matcher widths no m next p

/-- Parts one after the other as something to match. -/
def matcher (widths : List (Option Width)) : List Item → Mode → Matcher
  | [], _ => fun next p => next p
  | item :: rest, m => fun next p => item.matcher widths m (matcher widths rest m next) p

/-- Alternatives as something to match. -/
def choiceMatcher (widths : List (Option Width)) : List (List Item) → Mode → Matcher
  | [], _ => fun _ _ => none
  | first :: rest, m => fun next p =>
    (matcher widths first m next p).or (choiceMatcher widths rest m next p)

end

/-- Whether something matches at a place or at a later one, `fuel` of them at most. -/
def matchesFrom (body : Matcher) : Nat → Place → Bool
  | 0, _ => false
  | fuel + 1, p =>
    (body.alone p).isSome ||
      match p.step? fun _ => true with
      | some q => matchesFrom body fuel q
      | none => false

/-- Whether a pattern matches somewhere in a text. -/
def occursIn (pattern : Pattern) (t : Text) : Bool :=
  let body := matcher pattern.widths pattern.items (.ofFlags pattern.flags)
  matchesFrom body (t.length + 1) ⟨[], t, []⟩

end ModuleLowering.Pattern
