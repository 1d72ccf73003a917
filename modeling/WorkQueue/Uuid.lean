import WorkQueue.Text.Blank
import WorkQueue.Text.Numeral

/-! # Universally unique identifiers

Written as 32 lower-case digits in five groups; read in either letter case, also without the
hyphens, in braces, or as a URN.
-/

namespace WorkQueue

/-- An identifier of 128 bits. -/
structure Uuid where
  value : Nat
  value_lt : value < Nat.pow 2 128
  deriving Repr, DecidableEq

namespace Uuid

open Numeral

/-- The identifier with the low 128 bits of a number. -/
def ofNat (n : Nat) : Uuid :=
  ⟨n % Nat.pow 2 128, Nat.mod_lt _ (by decide)⟩

def nil : Uuid := ofNat 0

instance : Inhabited Uuid := ⟨nil⟩

/-- The 32 digits without hyphens. -/
def digits (u : Uuid) : List Char :=
  fixed 16 32 u.value

/-- The digits in groups of 8, 4, 4, 4 and 12. -/
def written (u : Uuid) : List Char :=
  let ds := u.digits
  ds.take 8 ++ '-' :: (ds.drop 8).take 4 ++ '-' :: (ds.drop 12).take 4
    ++ '-' :: (ds.drop 16).take 4 ++ '-' :: ds.drop 20

def text (u : Uuid) : String :=
  String.ofList u.written

def readDigits? (cs : List Char) : Option Uuid :=
  if cs.length = 32 then (read? 16 cs).map ofNat else none

def readHyphenated? (cs : List Char) : Option Uuid :=
  if cs[8]? = some '-' && cs[13]? = some '-' && cs[18]? = some '-' && cs[23]? = some '-'
      && cs.length = 36 then
    readDigits? (cs.take 8 ++ (cs.drop 9).take 4 ++ (cs.drop 14).take 4 ++ (cs.drop 19).take 4
      ++ cs.drop 24)
  else none

def ofChars? (cs : List Char) : Option Uuid :=
  match readDigits? cs with
  | some u => some u
  | none =>
    match readHyphenated? cs with
    | some u => some u
    | none =>
      if (cs.take 9).map Char.toLower = "urn:uuid:".toList then readHyphenated? (cs.drop 9)
      else
        match cs with
        | '\x7b' :: rest =>
          if rest.getLast? = some '\x7d' then readHyphenated? rest.dropLast else none
        | _ => none

def ofText? (s : String) : Option Uuid :=
  ofChars? s.toList

end Uuid

end WorkQueue
