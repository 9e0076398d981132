import Deezns.Io
import Deezns.Text
import Mathlib.Data.Finset.Insert
import Mathlib.Data.Finset.Card

/-!
# Domain blocklists

A list is read line by line; the format of each line is guessed on its own.
`exact` holds the names that block only themselves, `suffixes` those that
block their subdomains too, all in lower case.
-/
namespace Deezns

open Utf8 (Str)
open Text

inductive BlocklistEntry where
  | exact (domain : Str)
  | domainAndSubs (domain : Str)
  deriving DecidableEq, Repr

structure Blocklist where
  exact : Finset Str
  suffixes : Finset Str
  name : Str

namespace Blocklist

def looksLikeIp (s : Str) : Bool := s.head?.any Char.isDigit || s.contains ':'

def isValidDomain (s : Str) : Bool :=
  !s.isEmpty && byteLen s ≤ 253 && s.contains '.' &&
    s.all (fun c => c.isAlphanum || c == '-' || c == '.')

/-- The characters that may close an AdBlock pattern. -/
def isSeparator (c : Char) : Bool := c == '^' || c == '|'

def parseLine (line : Str) : Option BlocklistEntry :=
  match stripPrefix "||".toList line with
  | some rest =>
    let domain := trimEndMatches isSeparator rest
    let domain := toAsciiLowercase (trim domain)
    if isValidDomain domain then some (.domainAndSubs domain) else none
  | none =>
    if "@@".toList <+: line then none
    else
      match splitWhitespace line with
      | [] => none
      | [token] =>
        let domain := toAsciiLowercase token
        if isValidDomain domain then some (.exact domain) else none
      | ip :: token :: _ =>
        if looksLikeIp ip then
          let domain := toAsciiLowercase token
          if isValidDomain domain && domain != "localhost".toList then some (.exact domain)
          else none
        else none

def parseStep (list : Blocklist) : Except IoError Str → Blocklist
  | .error _ => list
  | .ok line =>
    let line := trim line
    if line.isEmpty || line.head? == some '#' || line.head? == some '!' then list
    else
      match parseLine line with
      | some (.exact d) => { list with exact := insert d list.exact }
      | some (.domainAndSubs d) => { list with suffixes := insert d list.suffixes }
      | none => list

def parse (reader : Lines) (name : Str) : Blocklist := reader.foldl parseStep ⟨∅, ∅, name⟩

def load (files : Files) (path name : Str) : Except IoError Blocklist :=
  (files path).map (fun reader => parse reader name)

/-- The loop over the parent domains: whatever follows a dot is looked up. -/
def containsParent (suffixes : Finset Str) : Str → Bool
  | [] => false
  | c :: rest =>
    if c = '.' then rest ∈ suffixes || containsParent suffixes rest
    else containsParent suffixes rest

def contains (list : Blocklist) (hostname : Str) : Bool :=
  let hostname := toAsciiLowercase hostname
  hostname ∈ list.exact || hostname ∈ list.suffixes || containsParent list.suffixes hostname

/-- Total number of entries. -/
def len (list : Blocklist) : Nat := list.exact.card + list.suffixes.card

def isEmpty (list : Blocklist) : Bool := list.len == 0

end Blocklist

end Deezns
