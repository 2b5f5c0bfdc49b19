import Mathlib.Data.List.TakeWhile
import TarsCpp.CString
import TarsCpp.Cutting

/-!
# URLs

`TC_URL`: the split of a request into its parts by `parseURL`, and `toURL`,
which puts the parts together again.

Where the text is split at the first delimiter, and which authorities have the
same user, password, host and port again once they have been put together.
-/

namespace TarsCpp.Http

open CString Cutting

def slash : UInt8 := 47
def question : UInt8 := 63
def numbersign : UInt8 := 35
def atSign : UInt8 := 64
def colonSign : UInt8 := 58
def dot : UInt8 := 46
def dollar : UInt8 := 36

/-- `URL_TYPE`; `_sScheme` is its name. -/
inductive UrlType
  | http
  | https
  | ftp
deriving DecidableEq, Repr

namespace UrlType

def scheme : UrlType → List UInt8
  | http => ascii "http"
  | https => ascii "https"
  | ftp => ascii "ftp"

def getDefaultPort : UrlType → List UInt8
  | http => ascii "80"
  | https => ascii "443"
  | ftp => ascii "21"

end UrlType

structure TcUrl where
  iURLType : UrlType := .http
  sUser : List UInt8 := []
  sPass : List UInt8 := []
  sDomain : List UInt8 := []
  sPort : List UInt8 := []
  sPath : List UInt8 := []
  sQuery : List UInt8 := []
  sRef : List UInt8 := []
  sURL : List UInt8 := []
deriving DecidableEq, Repr

namespace TcUrl

def isDefaultPort (url : TcUrl) : Bool :=
  url.sPort = url.iURLType.getDefaultPort

def getRequest (url : TcUrl) : List UInt8 :=
  (if url.sPath ≠ [] then url.sPath else []) ++
    (if url.sQuery ≠ [] then question :: url.sQuery else []) ++
    (if url.sRef ≠ [] then numbersign :: url.sRef else [])

def toURL (url : TcUrl) : List UInt8 :=
  url.iURLType.scheme ++ ascii "://" ++
    (if url.sUser ≠ [] then url.sUser else []) ++
    (if url.sUser ≠ [] ∧ url.sPass ≠ [] then colonSign :: url.sPass else []) ++
    (if url.sUser ≠ [] then [atSign] else []) ++
    url.sDomain ++
    (if url.isDefaultPort then [] else colonSign :: url.sPort) ++
    url.getRequest

end TcUrl

/-- The type, and what follows the scheme. -/
def parseScheme (originRequest : List UInt8) : UrlType × List UInt8 :=
  if startsWith (ascii "http://") originRequest then
    (.http, originRequest.drop 7)
  else if startsWith (ascii "https://") originRequest then
    (.https, originRequest.drop 8)
  else if startsWith (ascii "ftp://") originRequest then
    (.ftp, originRequest.drop 6)
  else
    (.http, originRequest)

/-- `sUrlAuthority` and `sUrlPath`; `npos` is the length of the text. -/
def splitAuthority (text : List UInt8) : List UInt8 × List UInt8 :=
  let index := text.idxOf slash
  let nQuestionIndex := text.idxOf question
  let nNumbersignIndex := text.idxOf numbersign
  if nQuestionIndex < index then
    (text.take nQuestionIndex, slash :: text.drop nQuestionIndex)
  else if nNumbersignIndex < index then
    (text.take nNumbersignIndex, slash :: text.drop nNumbersignIndex)
  else if index = text.length then
    (text, [])
  else
    (text.take index, text.drop index)

/-- The user with the password, and the host with the port. -/
def userHost (sUrlAuthority : List UInt8) : List UInt8 × List UInt8 :=
  match cut atSign sUrlAuthority with
  | some (user, domain) => (user, domain)
  | none => ([], sUrlAuthority)

def userPass (sUser : List UInt8) : List UInt8 × List UInt8 :=
  match cut colonSign sUser with
  | some (user, pass) => (user, pass)
  | none => (sUser, [])

def hostPort (defaultPort sDomain : List UInt8) : List UInt8 × List UInt8 :=
  match cut colonSign sDomain with
  | some (domain, port) => (domain, port)
  | none => (sDomain, defaultPort)

/-- An empty path is still an empty path here. -/
def pathQueryRef (sUrlPath : List UInt8) :
    List UInt8 × List UInt8 × List UInt8 :=
  match cut question sUrlPath with
  | some (path, query) =>
      match cutLast numbersign query with
      | some (query, ref) => (path, query, ref)
      | none => (path, query, [])
  | none =>
      match cutLast numbersign sUrlPath with
      | some (path, ref) => (path, [], ref)
      | none => (sUrlPath, [], [])

/-- The fields but `_sURL`. -/
def parseParts (iURLType : UrlType) (sUrlAuthority sUrlPath : List UInt8) :
    TcUrl :=
  let (user, host) := userHost sUrlAuthority
  let (sUser, sPass) := userPass user
  let (sDomain, sPort) := hostPort iURLType.getDefaultPort host
  let (path, sQuery, sRef) := pathQueryRef sUrlPath
  let sPath := if path = [] then [slash] else path
  { iURLType, sUser, sPass, sDomain, sPort, sPath, sQuery, sRef }

/-- `TC_Common::replace(text, "$", FILE_SEP)`. -/
def replaceDollar (text : List UInt8) : List UInt8 :=
  text.map fun c => if c = dollar then slash else c

/-- The end of `parseURL`, with the URL that `getURL` answers. -/
def finishURL (url : TcUrl) : Bool × TcUrl :=
  let url := { url with sURL := url.toURL }
  if url.sPort = ascii "0" then
    -- a unix local socket
    (true, { url with sDomain := replaceDollar url.sDomain })
  else
    (url.sDomain.contains dot, url)

def parseURL (url : TcUrl) (originRequest : List UInt8) : Bool × TcUrl :=
  if originRequest = [] then
    (false, url)
  else
    let (iURLType, text) := parseScheme originRequest
    let (sUrlAuthority, sUrlPath) := splitAuthority text
    finishURL (parseParts iURLType sUrlAuthority sUrlPath)

def TcUrl.getURL (url : TcUrl) : List UInt8 := url.sURL

def isDelimiter (c : UInt8) : Bool :=
  c = slash ∨ c = question ∨ c = numbersign

/-- The text between the scheme and the first delimiter. -/
def authority (originRequest : List UInt8) : List UInt8 :=
  (parseScheme originRequest).2.takeWhile fun c => !isDelimiter c

/-- The text from the first delimiter on. -/
def behindAuthority (originRequest : List UInt8) : List UInt8 :=
  (parseScheme originRequest).2.dropWhile fun c => !isDelimiter c

/-- The text from the first delimiter on, with a slash in front. -/
def pathText (behind : List UInt8) : List UInt8 :=
  if behind = [] ∨ behind.head? = some slash then behind else slash :: behind

/-- A text without a delimiter. -/
def Undelimited (text : List UInt8) : Prop :=
  slash ∉ text ∧ question ∉ text ∧ numbersign ∉ text

/-- The fragment comes first, with a question mark before any slash. -/
def FragmentFirst (behind : List UInt8) : Prop :=
  ∃ front back, behind = numbersign :: front ++ question :: back ∧
    slash ∉ front

section Split

variable {text front behind : List UInt8}

theorem plain_takeWhile (text : List UInt8) :
    Undelimited (text.takeWhile fun c => !isDelimiter c) := by
  have plain : ∀ c ∈ text.takeWhile (fun c => !isDelimiter c),
      ¬ (c = slash ∨ c = question ∨ c = numbersign) := by
    intro c member
    have kept := List.mem_takeWhile_imp member
    simpa [isDelimiter] using kept
  refine ⟨?_, ?_, ?_⟩
  · intro member
    exact plain _ member (.inl rfl)
  · intro member
    exact plain _ member (.inr (.inl rfl))
  · intro member
    exact plain _ member (.inr (.inr rfl))

/-- What follows the authority is empty or starts with a delimiter. -/
theorem dropWhile_cases (text : List UInt8) :
    (text.dropWhile fun c => !isDelimiter c) = [] ∨
      ∃ c rest, (text.dropWhile fun c => !isDelimiter c) = c :: rest ∧
        (c = slash ∨ c = question ∨ c = numbersign) := by
  cases behind : text.dropWhile fun c => !isDelimiter c with
  | nil => exact .inl rfl
  | cons c rest =>
      refine .inr ⟨c, rest, rfl, ?_⟩
      have dropped := List.head?_dropWhile_not
        (fun c => !isDelimiter c) text
      rw [behind] at dropped
      by_contra plain
      simp only [not_or] at plain
      simp [isDelimiter, plain] at dropped

theorem plain_authority (originRequest : List UInt8) :
    Undelimited (authority originRequest) :=
  plain_takeWhile _

theorem splitAuthority_append (plain : Undelimited front) (behind : List UInt8) :
    splitAuthority (front ++ behind) =
      (front ++ (splitAuthority behind).1, (splitAuthority behind).2) := by
  obtain ⟨noSlash, noQuestion, noNumbersign⟩ := plain
  simp only [splitAuthority, List.idxOf_append_of_notMem noSlash,
    List.idxOf_append_of_notMem noQuestion,
    List.idxOf_append_of_notMem noNumbersign, List.length_append,
    Nat.add_lt_add_iff_right, Nat.add_comm front.length,
    Nat.add_right_cancel_iff]
  have taken : ∀ n, (front ++ behind).take (n + front.length) =
      front ++ behind.take n := by
    intro n
    rw [Nat.add_comm, List.take_length_add_append]
  have dropped : ∀ n, (front ++ behind).drop (n + front.length) =
      behind.drop n := by
    intro n
    rw [Nat.add_comm, List.drop_length_add_append]
  simp only [taken, dropped]
  split
  · rfl
  split
  · rfl
  split
  · rfl
  · rfl

theorem splitAuthority_slash (rest : List UInt8) :
    splitAuthority (slash :: rest) = ([], slash :: rest) := by
  simp [splitAuthority]

theorem splitAuthority_question (rest : List UInt8) :
    splitAuthority (question :: rest) = ([], slash :: question :: rest) := by
  have other : question ≠ slash := by decide
  simp [splitAuthority, List.idxOf_cons_ne _ other]

theorem splitAuthority_numbersign (rest : List UInt8)
    (last : ¬ FragmentFirst (numbersign :: rest)) :
    splitAuthority (numbersign :: rest) =
      ([], slash :: numbersign :: rest) := by
  have other : numbersign ≠ slash := by decide
  have behind : ¬ (numbersign :: rest).idxOf question <
      (numbersign :: rest).idxOf slash := by
    intro before
    obtain ⟨front, back, parts, absent, _⟩ := idxOf_lt_idxOf_iff.mp before
    cases front with
    | nil => cases parts
    | cons c front =>
        obtain ⟨rfl, _⟩ := List.cons.inj parts
        exact last ⟨front, back, parts,
          fun member => absent (List.mem_cons_of_mem _ member)⟩
  simp only [splitAuthority]
  rw [if_neg behind]
  simp [List.idxOf_cons_ne _ other]

theorem splitAuthority_fragmentFirst
    (first : FragmentFirst behind) : (splitAuthority behind).1 ≠ [] := by
  obtain ⟨front, back, rfl, absent⟩ := first
  have other : numbersign ≠ question := by decide
  have before : (numbersign :: front ++ question :: back).idxOf question <
      (numbersign :: front ++ question :: back).idxOf slash := by
    refine idxOf_lt_idxOf_iff.mpr ⟨numbersign :: front, back, rfl, ?_,
      by decide⟩
    intro member
    rcases List.mem_cons.mp member with same | member
    · exact absurd same (by decide)
    · exact absent member
  simp only [splitAuthority]
  rw [if_pos before, List.cons_append, List.idxOf_cons_ne _ other]
  exact List.cons_ne_nil _ _

/-- The delimiters decide, unless the fragment comes first. -/
theorem splitAuthority_delimited (originRequest : List UInt8)
    (last : ¬ FragmentFirst (behindAuthority originRequest)) :
    splitAuthority (parseScheme originRequest).2 =
      (authority originRequest, pathText (behindAuthority originRequest)) := by
  have parts : authority originRequest ++ behindAuthority originRequest =
      (parseScheme originRequest).2 := List.takeWhile_append_dropWhile
  rw [← parts, splitAuthority_append (plain_authority _)]
  have split : splitAuthority (behindAuthority originRequest) =
      ([], pathText (behindAuthority originRequest)) := by
    rcases dropWhile_cases (parseScheme originRequest).2 with
      nothing | ⟨c, rest, behind, rfl | rfl | rfl⟩
    · rw [behindAuthority, nothing]
      rfl
    · rw [behindAuthority, behind]
      exact splitAuthority_slash rest
    · rw [behindAuthority, behind]
      exact splitAuthority_question rest
    · rw [behindAuthority, behind] at last ⊢
      exact splitAuthority_numbersign rest last
  rw [split, List.append_nil]

/-- The authority of the code is the text before the first delimiter. -/
theorem splitAuthority_fst_iff (originRequest : List UInt8) :
    (splitAuthority (parseScheme originRequest).2).1 =
        authority originRequest ↔
      ¬ FragmentFirst (behindAuthority originRequest) := by
  constructor
  · intro same first
    have parts : authority originRequest ++ behindAuthority originRequest =
        (parseScheme originRequest).2 := List.takeWhile_append_dropWhile
    rw [← parts, splitAuthority_append (plain_authority _)] at same
    exact splitAuthority_fragmentFirst first (List.append_right_eq_self.mp same)
  · intro last
    rw [splitAuthority_delimited originRequest last]

end Split

/-- The host with its port, as `toURL` writes them. -/
def hostText (defaultPort sDomain sPort : List UInt8) : List UInt8 :=
  sDomain ++ if sPort = defaultPort then [] else colonSign :: sPort

def userText (sUser sPass : List UInt8) : List UInt8 :=
  sUser ++ if sPass ≠ [] then colonSign :: sPass else []

/-- A password without a user, or a second at sign behind an empty user. -/
inductive AmbiguousAuthority : List UInt8 → Prop
  | password {pass : List UInt8} (given : pass ≠ []) (first : atSign ∉ pass)
      (host : List UInt8) :
      AmbiguousAuthority (colonSign :: pass ++ atSign :: host)
  | second {host : List UInt8} (again : atSign ∈ host) :
      AmbiguousAuthority (atSign :: host)
  | secondBehindColon {host : List UInt8} (again : atSign ∈ host) :
      AmbiguousAuthority (colonSign :: atSign :: host)

section Authority

variable {text user pass host domain port defaultPort : List UInt8}

theorem userHost_cases (text : List UInt8) :
    (atSign ∉ text ∧ userHost text = ([], text)) ∨
      ∃ user host, text = user ++ atSign :: host ∧ atSign ∉ user ∧
        userHost text = (user, host) := by
  rw [userHost]
  cases parts : cut atSign text with
  | none => exact .inl ⟨cut_eq_none_iff.mp parts, rfl⟩
  | some both =>
      obtain ⟨rfl, absent⟩ := cut_eq_some_iff.mp parts
      exact .inr ⟨both.1, both.2, rfl, absent, rfl⟩

theorem userHost_append (absent : atSign ∉ user) :
    userHost (user ++ atSign :: host) = (user, host) := by
  rw [userHost, cut_append_cons absent]

theorem userHost_absent (absent : atSign ∉ text) :
    userHost text = ([], text) := by
  rw [userHost, cut_eq_none_iff.mpr absent]

theorem userPass_cases (text : List UInt8) :
    (colonSign ∉ text ∧ userPass text = (text, [])) ∨
      ∃ user pass, text = user ++ colonSign :: pass ∧ colonSign ∉ user ∧
        userPass text = (user, pass) := by
  rw [userPass]
  cases parts : cut colonSign text with
  | none => exact .inl ⟨cut_eq_none_iff.mp parts, rfl⟩
  | some both =>
      obtain ⟨rfl, absent⟩ := cut_eq_some_iff.mp parts
      exact .inr ⟨both.1, both.2, rfl, absent, rfl⟩

theorem userPass_userText (absent : colonSign ∉ user) :
    userPass (userText user pass) = (user, pass) := by
  rw [userText]
  split
  · rw [userPass, cut_append_cons absent]
  · next empty =>
      rw [List.append_nil, userPass, cut_eq_none_iff.mpr absent,
        not_not.mp empty]

theorem userPass_colon (pass : List UInt8) :
    userPass (colonSign :: pass) = ([], pass) := by
  have front : colonSign :: pass = [] ++ colonSign :: pass := rfl
  rw [userPass, front, cut_append_cons List.not_mem_nil]

/-- The user and the password of a text come from the text. -/
theorem userPass_parts (found : userPass text = (user, pass)) :
    colonSign ∉ user ∧ ∀ c ∈ userText user pass, c ∈ text := by
  rcases userPass_cases text with
    ⟨absent, whole⟩ | ⟨front, back, rfl, absent, both⟩
  · rw [whole] at found
    obtain ⟨same, same'⟩ := Prod.mk.inj found
    subst same same'
    refine ⟨absent, ?_⟩
    intro c member
    rw [userText, if_neg (fun other => other rfl), List.append_nil] at member
    exact member
  · rw [both] at found
    obtain ⟨same, same'⟩ := Prod.mk.inj found
    subst same same'
    refine ⟨absent, ?_⟩
    intro c member
    rw [userText] at member
    split at member
    · exact member
    · rw [List.append_nil] at member
      exact List.mem_append_left _ member

/-- A text without a user is empty, or starts with a colon. -/
theorem userPass_userless (found : userPass text = ([], pass)) :
    (text = [] ∧ pass = []) ∨ text = colonSign :: pass := by
  rcases userPass_cases text with
    ⟨absent, whole⟩ | ⟨front, back, rfl, absent, both⟩
  · rw [whole] at found
    obtain ⟨same, same'⟩ := Prod.mk.inj found
    exact .inl ⟨same, same'.symm⟩
  · rw [both] at found
    obtain ⟨rfl, rfl⟩ := Prod.mk.inj found
    exact .inr rfl

theorem hostPort_cases (defaultPort text : List UInt8) :
    (colonSign ∉ text ∧ hostPort defaultPort text = (text, defaultPort)) ∨
      ∃ domain port, text = domain ++ colonSign :: port ∧ colonSign ∉ domain ∧
        hostPort defaultPort text = (domain, port) := by
  rw [hostPort]
  cases parts : cut colonSign text with
  | none => exact .inl ⟨cut_eq_none_iff.mp parts, rfl⟩
  | some both =>
      obtain ⟨rfl, absent⟩ := cut_eq_some_iff.mp parts
      exact .inr ⟨both.1, both.2, rfl, absent, rfl⟩

theorem hostPort_hostText (absent : colonSign ∉ domain) :
    hostPort defaultPort (hostText defaultPort domain port) =
      (domain, port) := by
  rw [hostText]
  split
  · next same =>
      rw [List.append_nil, hostPort, cut_eq_none_iff.mpr absent, same]
  · rw [hostPort, cut_append_cons absent]

/-- The host and the port of a text come from the text. -/
theorem hostPort_parts (found : hostPort defaultPort text = (domain, port)) :
    colonSign ∉ domain ∧ (∀ c ∈ hostText defaultPort domain port, c ∈ text) ∧
      (∀ c ∈ text, c ∈ hostText defaultPort domain port ∨ c = colonSign ∨
        c ∈ defaultPort) := by
  rcases hostPort_cases defaultPort text with
    ⟨absent, whole⟩ | ⟨front, back, rfl, absent, both⟩
  · rw [whole] at found
    obtain ⟨same, same'⟩ := Prod.mk.inj found
    subst same same'
    have plain : hostText defaultPort text defaultPort = text := by
      rw [hostText, if_pos rfl, List.append_nil]
    rw [plain]
    exact ⟨absent, fun c member => member, fun c member => .inl member⟩
  · rw [both] at found
    cases found
    refine ⟨absent, ?_, ?_⟩
    · intro c member
      rw [hostText] at member
      split at member
      · rw [List.append_nil] at member
        exact List.mem_append_left _ member
      · exact member
    · intro c member
      rw [hostText]
      split
      · next same =>
          rw [List.append_nil, ← same]
          rcases List.mem_append.mp member with member | member
          · exact .inl member
          · exact .inr (List.mem_cons.mp member)
      · exact .inl member

theorem atSign_not_mem_default (kind : UrlType) :
    atSign ∉ kind.getDefaultPort := by
  cases kind <;> decide

/-- An accepted host and port are not empty. -/
def Accepts (sDomain sPort : List UInt8) : Prop :=
  sPort = ascii "0" ∨ dot ∈ sDomain

theorem hostText_colon {kind : UrlType} {rest : List UInt8}
    (accepts : Accepts domain port) (absent : colonSign ∉ domain)
    (starts : hostText kind.getDefaultPort domain port = colonSign :: rest) :
    atSign ∉ hostText kind.getDefaultPort domain port := by
  cases domain with
  | nil =>
      rcases accepts with rfl | impossible
      · cases kind <;> decide
      · cases impossible
  | cons c domain =>
      rw [hostText, List.cons_append] at starts
      obtain ⟨rfl, _⟩ := List.cons.inj starts
      exact absurd List.mem_cons_self absent

section Reparsing

variable {kind : UrlType}

/-- The four fields of an authority. -/
structure AuthorityParts (kind : UrlType)
    (text user pass domain port : List UInt8) : Prop where
  userPass : userPass (userHost text).1 = (user, pass)
  hostPort : hostPort kind.getDefaultPort (userHost text).2 = (domain, port)

theorem exists_authorityParts (kind : UrlType) (text : List UInt8) :
    ∃ user pass domain port,
      AuthorityParts kind text user pass domain port :=
  ⟨_, _, _, _, rfl, rfl⟩

/-- The text that `toURL` makes of the four fields. -/
def partsText (kind : UrlType) (user pass domain port : List UInt8) :
    List UInt8 :=
  (if user ≠ [] then userText user pass ++ [atSign] else []) ++
    hostText kind.getDefaultPort domain port

theorem hostText_parts (colonless : colonSign ∉ domain)
    (absent : atSign ∉ hostText kind.getDefaultPort domain port) :
    AuthorityParts kind (hostText kind.getDefaultPort domain port)
      [] [] domain port where
  userPass := by
    rw [userHost_absent absent]
    rfl
  hostPort := by
    rw [userHost_absent absent]
    exact hostPort_hostText colonless

theorem userHostText_parts (colonless : colonSign ∉ domain)
    (colonless' : colonSign ∉ user) (absent : atSign ∉ userText user pass) :
    AuthorityParts kind (userText user pass ++ [atSign] ++
      hostText kind.getDefaultPort domain port) user pass domain port where
  userPass := by
    rw [List.append_assoc, List.singleton_append, userHost_append absent]
    exact userPass_userText colonless'
  hostPort := by
    rw [List.append_assoc, List.singleton_append, userHost_append absent]
    exact hostPort_hostText colonless

/-- What is ambiguous has an empty user. -/
theorem AmbiguousAuthority.userless (ambiguous : AmbiguousAuthority text)
    (parts : AuthorityParts kind text user pass domain port) : user = [] := by
  have read := parts.userPass
  have empty : userPass [] = ([], []) := rfl
  cases ambiguous with
  | password given first host =>
      rw [userHost_append (by simpa using ⟨by decide, first⟩),
        userPass_colon] at read
      exact (Prod.mk.inj read).1.symm
  | second again =>
      rw [show atSign :: _ = [] ++ atSign :: _ from rfl,
        userHost_append List.not_mem_nil, empty] at read
      exact (Prod.mk.inj read).1.symm
  | secondBehindColon again =>
      rw [show colonSign :: atSign :: _ = [colonSign] ++ atSign :: _ from rfl,
        userHost_append (by decide), userPass_colon] at read
      exact (Prod.mk.inj read).1.symm

/-- Fields of an authority that is not ambiguous are read back. -/
theorem partsText_parts (parts : AuthorityParts kind text user pass domain port)
    (clear : ¬ AmbiguousAuthority text) :
    AuthorityParts kind (partsText kind user pass domain port)
      user pass domain port := by
  obtain ⟨colonless, fromHost, _⟩ := hostPort_parts parts.hostPort
  have read := parts.userPass
  rw [partsText]
  rcases userHost_cases text with
    ⟨absent, whole⟩ | ⟨front, host, rfl, absent, both⟩
  · rw [whole] at read fromHost
    obtain ⟨same, same'⟩ := Prod.mk.inj read
    subst same same'
    exact hostText_parts colonless fun member => absent (fromHost _ member)
  · rw [both] at read fromHost
    obtain ⟨colonless', fromUser⟩ := userPass_parts read
    by_cases userless : user = []
    · subst userless
      rw [if_neg (fun other => other rfl), List.nil_append]
      rcases userPass_userless read with ⟨rfl, rfl⟩ | rfl
      · refine hostText_parts colonless fun member => ?_
        exact clear (.second (fromHost _ member))
      · by_cases given : pass = []
        · subst given
          refine hostText_parts colonless fun member => ?_
          exact clear (.secondBehindColon (fromHost _ member))
        · have first : atSign ∉ pass := fun member =>
            absent (List.mem_cons_of_mem _ member)
          exact absurd (.password given first host) clear
    · rw [if_pos userless]
      exact userHostText_parts colonless colonless'
        fun member => absent (fromUser _ member)

/-- A host whose text is read back with an empty user. -/
theorem hostText_userless {domain' port' : List UInt8}
    (accepts : Accepts domain port) (colonless : colonSign ∉ domain)
    (again : AuthorityParts kind (hostText kind.getDefaultPort domain port)
      [] pass domain' port') :
    pass = [] ∧ (atSign ∈ hostText kind.getDefaultPort domain port →
      domain'.length ≠ domain.length) := by
  have read := again.userPass
  have place := again.hostPort
  rcases userHost_cases (hostText kind.getDefaultPort domain port) with
    ⟨absent, whole⟩ | ⟨front, host, whole, _, both⟩
  · rw [whole] at read
    exact ⟨(Prod.mk.inj read).2.symm, fun member => absurd member absent⟩
  rw [both] at read place
  rcases userPass_userless read with ⟨rfl, rfl⟩ | rfl
  · refine ⟨rfl, fun _ => ?_⟩
    rw [List.nil_append] at whole
    cases domain with
    | nil =>
        rw [hostText, List.nil_append] at whole
        split at whole
        · cases whole
        · exact absurd (List.cons.inj whole).1 (by decide)
    | cons c rest =>
        rw [hostText, List.cons_append] at whole
        obtain ⟨_, behind⟩ := List.cons.inj whole
        have kept := @hostPort_hostText rest port kind.getDefaultPort
          fun member => colonless (List.mem_cons_of_mem _ member)
        rw [hostText, behind, place] at kept
        rw [(Prod.mk.inj kept).1, List.length_cons]
        exact Nat.ne_of_lt (Nat.lt_succ_self _)
  · have absent := hostText_colon accepts colonless whole
    rw [whole] at absent
    exact absurd (List.mem_append_right _ List.mem_cons_self) absent

/-- Fields of an ambiguous authority are not read back. -/
theorem partsText_other {domain' port' : List UInt8}
    (parts : AuthorityParts kind text user pass domain port)
    (accepts : Accepts domain port) (ambiguous : AmbiguousAuthority text)
    (again : AuthorityParts kind (partsText kind user pass domain port)
      user pass domain' port') : domain'.length ≠ domain.length := by
  obtain rfl := ambiguous.userless parts
  obtain ⟨colonless, _, intoHost⟩ := hostPort_parts parts.hostPort
  rw [partsText, if_neg (fun other => other rfl), List.nil_append] at again
  obtain ⟨rfl, longer⟩ := hostText_userless accepts colonless again
  apply longer
  have marked : atSign ∈ (userHost text).2 →
      atSign ∈ hostText kind.getDefaultPort domain port := by
    intro member
    rcases intoHost _ member with member | same | member
    · exact member
    · exact absurd same (by decide)
    · exact absurd member (atSign_not_mem_default kind)
  have read := parts.userPass
  cases ambiguous with
  | password given first host =>
      rw [userHost_append (by simpa using ⟨by decide, first⟩),
        userPass_colon] at read
      exact absurd (Prod.mk.inj read).2 given
  | @second host again =>
      refine marked ?_
      rw [show atSign :: host = [] ++ atSign :: host from rfl,
        userHost_append List.not_mem_nil]
      exact again
  | @secondBehindColon host again =>
      refine marked ?_
      rw [show colonSign :: atSign :: host =
        [colonSign] ++ atSign :: host from rfl,
        userHost_append (by decide)]
      exact again

end Reparsing

end Authority

end TarsCpp.Http
