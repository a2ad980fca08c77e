import StarterHub.Config
import StarterHub.Lib.Decimal
import StarterHub.Lib.UrlSyntax

/-!
# The connection URL reads back

`Postgresql::url` glues four percent-encoded texts and a port together.  For every host without a colon, taking the
URL apart by the generic syntax and decoding each component gives the settings back: no byte of a credential can move
the target or add a parameter.
-/

namespace StarterHub

open PercentEncoding UrlSyntax

/-- Where a connection URL leads. -/
structure Target where
  username : String
  password : String
  host : String
  port : UInt16
  database : String
  deriving DecidableEq

def parsePort (digits : List Char) : Option UInt16 :=
  if digits ≠ [] ∧ digits.all Char.isDigit ∧ Nat.ofDigitChars 10 digits 0 < 65536 then
    some (UInt16.ofNat (Nat.ofDigitChars 10 digits 0))
  else none

/-- Parses by the generic syntax and decodes each component as UTF-8; a query or a fragment is refused. -/
def parseTarget (url : String) : Option Target := do
  let url ← parse "postgres" url.toList
  if url.query.isSome || url.fragment.isSome then none
  let username ← decodeUtf8 url.authority.username
  let password ← url.authority.password.bind decodeUtf8
  let host ← decodeUtf8 url.authority.host
  let port ← url.authority.port.bind parsePort
  let database ← decodeUtf8 url.path
  return ⟨username, password, host, port, database⟩

/-! ### The components -/

theorem denotes_toString (port : UInt16) : Decimal.Denotes (toString port).toList port.toNat := by
  have hlist : (toString port).toList = Nat.toDigits 10 port.toNat := Nat.toList_repr
  rw [hlist]
  exact Decimal.denotes_toDigits port.toNat

theorem parsePort_toString (port : UInt16) : parsePort (toString port).toList = some port := by
  have hport := denotes_toString port
  have hdigits : (toString port).toList.all Char.isDigit = true := List.all_eq_true.2 hport.isDigit
  have hlt : Nat.ofDigitChars 10 (toString port).toList 0 < 65536 := by
    rw [hport.value]
    exact port.toNat_lt
  rw [parsePort, if_pos ⟨hport.nonempty, hdigits, hlt⟩, hport.value, UInt16.ofNat_toNat]

private theorem not_isAlphanum_of_genDelims {c : Char} (h : c ∈ genDelims) : c.isAlphanum = false := by
  have hall : genDelims.all (fun c => !c.isAlphanum) = true := by decide
  simpa using List.all_eq_true.1 hall c h

private theorem urlEncodeSet_of_genDelims {n : Nat} (h : n < 128) (hn : Char.ofNat n ∈ genDelims) :
    urlEncodeSet (UInt8.ofNat n) = true := by
  revert n
  decide

theorem plain_utf8PercentEncode (input : String) : Plain (utf8PercentEncode input urlEncodeSet).toList := by
  intro c hc hdelim
  rcases mem_utf8PercentEncode hc with rfl | halnum | ⟨n, hn, rfl, hset⟩
  · revert hdelim
    decide
  · rw [not_isAlphanum_of_genDelims hdelim] at halnum
    cases halnum
  · rw [urlEncodeSet_of_genDelims hn hdelim] at hset
    cases hset

theorem plain_toString (port : UInt16) : Plain (toString port).toList := by
  intro c hc hdelim
  have hdigit := (denotes_toString port).isDigit c hc
  have halnum := not_isAlphanum_of_genDelims hdelim
  simp [Char.isAlphanum, hdigit] at halnum

/-! ### The URL -/

theorem toList_url {self : Postgresql} (h : ':' ∉ self.host.toList) :
    self.url.toList = compose "postgres" (utf8PercentEncode self.username urlEncodeSet).toList
      (utf8PercentEncode self.password urlEncodeSet).toList (utf8PercentEncode self.host urlEncodeSet).toList
      (toString self.port).toList (utf8PercentEncode self.database urlEncodeSet).toList := by
  have hhost : self.host.toList.contains ':' = false := by simpa using h
  have hscheme : "postgres://".toList = ("postgres" ++ "://").toList := by decide
  have hcolon : ":".toList = [':'] := by decide
  have hat : "@".toList = ['@'] := by decide
  have hslash : "/".toList = ['/'] := by decide
  simp only [Postgresql.url, hhost, Bool.false_eq_true, ↓reduceIte, String.join, List.foldl_cons, List.foldl_nil,
    String.empty_append, String.toList_append, hscheme, hcolon, hat, hslash, compose, List.append_assoc,
    List.cons_append, List.nil_append]

private theorem not_mem_scheme {c : Char} (h : c ∈ genDelims) (hne : c ∉ [':', '@', '/']) :
    c ∉ ("postgres" ++ "://").toList := by
  have hall : genDelims.all (fun c =>
      [':', '@', '/'].contains c || !("postgres" ++ "://").toList.contains c) = true := by
    decide
  have hc := List.all_eq_true.1 hall c h
  rw [Bool.or_eq_true, List.contains_iff_mem, Bool.not_eq_true', ← Bool.not_eq_true, List.contains_iff_mem] at hc
  exact hc.resolve_left hne

/-- For every host without a colon the URL reads back as the settings, with exactly one `@` and neither `?` nor
`#`. -/
theorem url_roundtrip (self : Postgresql) (h : ':' ∉ self.host.toList) :
    parseTarget self.url = some ⟨self.username, self.password, self.host, self.port, self.database⟩ ∧
      self.url.toList.count '@' = 1 ∧ '?' ∉ self.url.toList ∧ '#' ∉ self.url.toList := by
  have hset : urlEncodeSet 37 = true := by decide
  have hu := plain_utf8PercentEncode self.username
  have hw := plain_utf8PercentEncode self.password
  have hh := plain_utf8PercentEncode self.host
  have hd := plain_utf8PercentEncode self.database
  have hp := plain_toString self.port
  have hno : ∀ c ∈ genDelims, c ∉ [':', '@', '/'] → c ∉ self.url.toList := by
    intro c hc hne
    have hscheme := not_mem_scheme hc hne
    simp only [List.mem_cons, List.not_mem_nil, or_false, not_or] at hne
    obtain ⟨h1, h2, h3⟩ := hne
    simp only [toList_url h, compose, List.mem_append, List.mem_cons, not_or]
    exact ⟨hscheme, hu.not_mem hc, h1, hw.not_mem hc, h2, hh.not_mem hc, h1, hp.not_mem hc, h3, hd.not_mem hc⟩
  refine ⟨?_, ?_, hno '?' (by decide) (by decide), hno '#' (by decide) (by decide)⟩
  · rw [parseTarget, toList_url h, parse_compose "postgres" hu hw hh hp hd]
    simp only [Option.bind_eq_bind, Option.bind_some, decodeUtf8_utf8PercentEncode hset, parsePort_toString]
    rfl
  · have hzero : ∀ cs : List Char, Plain cs → cs.count '@' = 0 := fun cs hcs =>
      List.count_eq_zero.2 (hcs.not_mem (by decide))
    have hscheme : ("postgres" ++ "://").toList.count '@' = 0 := by decide
    simp only [toList_url h, compose, List.count_append, List.count_cons, hscheme, hzero _ hu, hzero _ hw, hzero _ hh,
      hzero _ hp, hzero _ hd]
    decide

/-- Credentials made of delimiters, and an empty database. -/
theorem url_roundtrip_hostile :
    parseTarget (Postgresql.url { (Config.default "app" "1.0.0").database with
      username := "a@b:c/d", password := "?x=1#%40 é", database := "" }) =
        some ⟨"a@b:c/d", "?x=1#%40 é", "localhost", 5432, ""⟩ :=
  (url_roundtrip _ (by decide)).1

end StarterHub
