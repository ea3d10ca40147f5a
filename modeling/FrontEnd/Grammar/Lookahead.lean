import FrontEnd.Grammar.Cursor

/-!
# Whether a list of type arguments follows

A `<` behind a name either opens a list of type arguments or is the operator. It opens a list
exactly when the tokens from it on begin with one in full:

    list ::= "<" item ("," item)* ","? ">"
    item ::= identifier ("." identifier)* list?

The decision looks at the kinds of the tokens alone and takes nothing. Each function gives what
follows the part that it recognises. A list is never longer than the tokens there are, so their
number bounds the recursion.
-/

namespace FrontEnd

namespace Lookahead

open Token

/-- What follows the further segments of a dotted name. A point without an identifier behind it is
no segment. -/
def afterSegments? : List Kind → Option (List Kind)
  | .dot :: .identifier :: rest => afterSegments? rest
  | .dot :: _ => none
  | rest => some rest

mutual
/-- What follows the items of a list and its closing bracket. -/
def afterItems? : Nat → List Kind → Option (List Kind)
  | n + 1, .identifier :: rest =>
    match afterSegments? rest with
    | none => none
    | some afterName =>
      match afterArguments? n afterName with
      | some (.comma :: .greater :: behind) => some behind
      | some (.comma :: more) => afterItems? n more
      | some (.greater :: behind) => some behind
      | _ => none
  | _, _ => none
/-- What follows a list of arguments if one stands there, and otherwise all. -/
def afterArguments? : Nat → List Kind → Option (List Kind)
  | n + 1, .less :: rest => afterItems? n rest
  | 0, .less :: _ => none
  | _, rest => some rest
end

/-- **What follows the list of type arguments** at the start of a sequence of kinds, if one stands
there. -/
def afterList? : List Kind → Option (List Kind)
  | .less :: rest => afterItems? rest.length rest
  | _ => none

end Lookahead

/-- **The index behind the list of type arguments** that begins at an index of a sequence of
tokens, if one begins there. -/
def argumentListEnd? (tokens : List Token) (start : Nat) : Option Nat :=
  (Lookahead.afterList? ((tokens.drop start).map Token.kind)).map fun rest =>
    tokens.length - rest.length

/-- **Whether the tokens from the current one on begin with a list of type arguments.** -/
def Cursor.opensArguments (c : Cursor) : Bool :=
  c.kind == .less && (Lookahead.afterList? (c.left.map Token.kind)).isSome

end FrontEnd
