import TarsCpp.Http.Url

/-!
# The normal form of a URL

Which accepted texts fall into the authority and the path as the delimiters
say, and give the same fields again once they have been put together.
-/

namespace TarsCpp.Http

open CString Cutting

def requestText (sPath sQuery sRef : List UInt8) : List UInt8 :=
  sPath ++ (if sQuery ≠ [] then question :: sQuery else []) ++
    (if sRef ≠ [] then numbersign :: sRef else [])

/-- Texts whose path, query and reference are put together to a text that
falls into other parts. -/
inductive AmbiguousPath : List UInt8 → Prop
  | path {front : List UInt8} (unasked : question ∉ front)
      (marked : numbersign ∈ front) :
      AmbiguousPath (front ++ [numbersign])
  | noQuery {front : List UInt8} (unasked : question ∉ front)
      (marked : numbersign ∈ front) :
      AmbiguousPath (front ++ [question])
  | noQueryNoRef {front : List UInt8} (unasked : question ∉ front)
      (marked : numbersign ∈ front) :
      AmbiguousPath (front ++ [question, numbersign])
  | askingRef {front ref : List UInt8} (unasked : question ∉ front)
      (last : numbersign ∉ ref) (asked : question ∈ ref) :
      AmbiguousPath (front ++ question :: numbersign :: ref)
  | query {front query : List UInt8} (unasked : question ∉ front)
      (marked : numbersign ∈ query) :
      AmbiguousPath (front ++ question :: (query ++ [numbersign]))

/-- The parts that `requestText` keeps apart. -/
structure Apart (sPath sQuery sRef : List UInt8) : Prop where
  last : sRef = [] → numbersign ∉ if sQuery = [] then sPath else sQuery
  unasked : sQuery = [] → question ∉ sRef

section Path

variable {text path query ref path' query' ref' : List UInt8}

/-- How a text falls into its parts. -/
inductive PathParts : List UInt8 → List UInt8 → List UInt8 → List UInt8 → Prop
  | path {path : List UInt8} (unasked : question ∉ path)
      (unmarked : numbersign ∉ path) : PathParts path path [] []
  | pathRef {path ref : List UInt8} (unasked : question ∉ path)
      (unasked' : question ∉ ref) (last : numbersign ∉ ref) :
      PathParts (path ++ numbersign :: ref) path [] ref
  | query {path query : List UInt8} (unasked : question ∉ path)
      (unmarked : numbersign ∉ query) :
      PathParts (path ++ question :: query) path query []
  | queryRef {path query ref : List UInt8} (unasked : question ∉ path)
      (last : numbersign ∉ ref) :
      PathParts (path ++ question :: (query ++ numbersign :: ref))
        path query ref

theorem pathQueryRef_eq_iff :
    pathQueryRef text = (path, query, ref) ↔
      PathParts text path query ref := by
  constructor
  · intro found
    rw [pathQueryRef] at found
    cases asked : cut question text with
    | none =>
        have unasked := cut_eq_none_iff.mp asked
        cases marked : cutLast numbersign text with
        | none =>
            rw [asked, marked] at found
            cases found
            exact .path unasked (cutLast_eq_none_iff.mp marked)
        | some both =>
            obtain ⟨rfl, last⟩ := cutLast_eq_some_iff.mp marked
            rw [asked, marked] at found
            cases found
            rw [List.mem_append, List.mem_cons, not_or, not_or] at unasked
            exact .pathRef unasked.1 unasked.2.2 last
    | some both =>
        obtain ⟨rfl, unasked⟩ := cut_eq_some_iff.mp asked
        cases marked : cutLast numbersign both.2 with
        | none =>
            rw [asked] at found
            simp only [marked] at found
            cases found
            exact .query unasked (cutLast_eq_none_iff.mp marked)
        | some both' =>
            obtain ⟨whole, last⟩ := cutLast_eq_some_iff.mp marked
            rw [asked] at found
            simp only [marked] at found
            cases found
            rw [whole]
            exact .queryRef unasked last
  · intro parts
    cases parts with
    | path unasked unmarked =>
        rw [pathQueryRef, cut_eq_none_iff.mpr unasked,
          cutLast_eq_none_iff.mpr unmarked]
    | pathRef unasked unasked' last =>
        have whole : question ∉ path ++ numbersign :: ref := by
          rw [List.mem_append, List.mem_cons]
          rintro (member | same | member)
          · exact unasked member
          · exact absurd same (by decide)
          · exact unasked' member
        rw [pathQueryRef, cut_eq_none_iff.mpr whole, cutLast_append_cons last]
    | query unasked unmarked =>
        rw [pathQueryRef, cut_append_cons unasked]
        simp only [cutLast_eq_none_iff.mpr unmarked]
    | queryRef unasked last =>
        rw [pathQueryRef, cut_append_cons unasked]
        simp only [cutLast_append_cons last]

theorem PathParts.unique (parts : PathParts text path query ref)
    (parts' : PathParts text path' query' ref') :
    path = path' ∧ query = query' ∧ ref = ref' := by
  have found := pathQueryRef_eq_iff.mpr parts
  rw [pathQueryRef_eq_iff.mpr parts'] at found
  obtain ⟨same, rest⟩ := Prod.mk.inj found
  obtain ⟨same', same''⟩ := Prod.mk.inj rest
  exact ⟨same.symm, same'.symm, same''.symm⟩

theorem PathParts.apart_iff (parts : PathParts text path query ref) :
    Apart path query ref ↔ ¬ AmbiguousPath text := by
  constructor
  · intro apart ambiguous
    cases ambiguous with
    | path unasked marked =>
        obtain ⟨rfl, rfl, rfl⟩ := parts.unique
          (.pathRef unasked List.not_mem_nil List.not_mem_nil)
        exact apart.last rfl marked
    | noQuery unasked marked =>
        obtain ⟨rfl, rfl, rfl⟩ := parts.unique
          (.query unasked List.not_mem_nil)
        exact apart.last rfl marked
    | @noQueryNoRef front unasked marked =>
        obtain ⟨rfl, rfl, rfl⟩ := parts.unique
          (@PathParts.queryRef front [] [] unasked List.not_mem_nil)
        exact apart.last rfl marked
    | @askingRef front ref unasked last asked =>
        obtain ⟨rfl, rfl, rfl⟩ := parts.unique
          (@PathParts.queryRef front [] ref unasked last)
        exact apart.unasked rfl asked
    | @query front query unasked marked =>
        obtain ⟨rfl, rfl, rfl⟩ := parts.unique
          (@PathParts.queryRef front query [] unasked List.not_mem_nil)
        have unmarked := apart.last rfl
        rw [if_neg (List.ne_nil_of_mem marked)] at unmarked
        exact unmarked marked
  · intro clear
    cases parts with
    | path unasked unmarked =>
        exact ⟨fun _ => unmarked, fun _ => List.not_mem_nil⟩
    | pathRef unasked unasked' last =>
        refine ⟨?_, fun _ => unasked'⟩
        rintro rfl marked
        exact clear (.path unasked marked)
    | query unasked unmarked =>
        refine ⟨?_, fun _ => List.not_mem_nil⟩
        intro _
        split
        · next empty =>
            subst empty
            exact fun marked => clear (.noQuery unasked marked)
        · exact unmarked
    | queryRef unasked last =>
        constructor
        · rintro rfl
          split
          · next empty =>
              subst empty
              exact fun marked => clear (.noQueryNoRef unasked marked)
          · exact fun marked => clear (.query unasked marked)
        · rintro rfl asked
          exact clear (.askingRef unasked last asked)

theorem PathParts.plain (parts : PathParts text path query ref) :
    question ∉ path ∧ numbersign ∉ ref := by
  cases parts with
  | path unasked unmarked => exact ⟨unasked, List.not_mem_nil⟩
  | pathRef unasked unasked' last => exact ⟨unasked, last⟩
  | query unasked unmarked => exact ⟨unasked, List.not_mem_nil⟩
  | queryRef unasked last => exact ⟨unasked, last⟩

theorem requestText_path (path : List UInt8) :
    requestText path [] [] = path := by
  simp [requestText]

theorem requestText_query (asks : query ≠ []) :
    requestText path query [] = path ++ question :: query := by
  simp [requestText, asks]

theorem requestText_ref (refers : ref ≠ []) :
    requestText path [] ref = path ++ numbersign :: ref := by
  simp [requestText, refers]

theorem requestText_queryRef (asks : query ≠ []) (refers : ref ≠ []) :
    requestText path query ref =
      path ++ question :: (query ++ numbersign :: ref) := by
  simp [requestText, asks, refers]

/-- Parts that stay apart are found again. -/
theorem Apart.pathParts (apart : Apart path query ref)
    (unasked : question ∉ path) (last : numbersign ∉ ref) :
    PathParts (requestText path query ref) path query ref := by
  by_cases asks : query = []
  · subst asks
    by_cases refers : ref = []
    · subst refers
      rw [requestText_path]
      exact .path unasked (apart.last rfl)
    · rw [requestText_ref refers]
      exact .pathRef unasked (apart.unasked rfl) last
  · by_cases refers : ref = []
    · subst refers
      have unmarked := apart.last rfl
      rw [if_neg asks] at unmarked
      rw [requestText_query asks]
      exact .query unasked unmarked
    · rw [requestText_queryRef asks refers]
      exact .queryRef unasked last

theorem append_cons_ne_self (front back : List UInt8) (c : UInt8) :
    front ≠ front ++ c :: back := by
  intro same
  have lengths := congrArg List.length same
  rw [List.length_append, List.length_cons] at lengths
  omega

/-- Parts that are found again stay apart. -/
theorem PathParts.apart (unasked : question ∉ path)
    (parts : PathParts (requestText path query ref) path query ref) :
    Apart path query ref := by
  constructor
  · rintro rfl marked
    split at marked
    · next asks =>
        subst asks
        rw [requestText_path] at parts
        cases both : cutLast numbersign path with
        | none => exact cutLast_eq_none_iff.mp both marked
        | some both' =>
            obtain ⟨whole, last⟩ := cutLast_eq_some_iff.mp both
            have other := pathQueryRef_eq_iff.mpr parts
            rw [pathQueryRef, cut_eq_none_iff.mpr unasked, both] at other
            have same := (Prod.mk.inj other).1
            rw [same] at whole
            exact append_cons_ne_self _ _ _ whole
    · next asks =>
        rw [requestText_query asks] at parts
        cases both : cutLast numbersign query with
        | none => exact cutLast_eq_none_iff.mp both marked
        | some both' =>
            obtain ⟨whole, last⟩ := cutLast_eq_some_iff.mp both
            have other := pathQueryRef_eq_iff.mpr parts
            rw [pathQueryRef, cut_append_cons unasked] at other
            simp only [both] at other
            have same := (Prod.mk.inj (Prod.mk.inj other).2).1
            rw [same] at whole
            exact append_cons_ne_self _ _ _ whole
  · rintro rfl asked
    have refers : ref ≠ [] := List.ne_nil_of_mem asked
    rw [requestText_ref refers] at parts
    obtain ⟨front, back, rfl, first⟩ := List.eq_append_cons_of_mem asked
    have whole : question ∉ path ++ numbersign :: front := by
      rw [List.mem_append, List.mem_cons]
      rintro (member | same | member)
      · exact unasked member
      · exact absurd same (by decide)
      · exact first member
    have other := pathQueryRef_eq_iff.mpr parts
    have regrouped : path ++ numbersign :: (front ++ question :: back) =
        (path ++ numbersign :: front) ++ question :: back := by
      rw [List.append_assoc, List.cons_append]
    rw [regrouped, pathQueryRef, cut_append_cons whole] at other
    have same : path ++ numbersign :: front = path := by
      cases both : cutLast numbersign back with
      | none =>
          simp only [both] at other
          exact (Prod.mk.inj other).1
      | some both' =>
          simp only [both] at other
          exact (Prod.mk.inj other).1
    exact append_cons_ne_self _ _ _ same.symm

end Path

structure SameFields (first second : TcUrl) : Prop where
  iURLType : first.iURLType = second.iURLType
  sUser : first.sUser = second.sUser
  sPass : first.sPass = second.sPass
  sDomain : first.sDomain = second.sDomain
  sPort : first.sPort = second.sPort
  sPath : first.sPath = second.sPath
  sQuery : first.sQuery = second.sQuery
  sRef : first.sRef = second.sRef

/-- The authority is the text before the first delimiter, and the URL that is
put together from the parts is accepted and has the same parts. -/
structure NormalForm (url : TcUrl) (originRequest : List UInt8) : Prop where
  authority : (splitAuthority (parseScheme originRequest).2).1 =
    authority originRequest
  stable : ∀ again : TcUrl,
    let parsed := (parseURL url originRequest).2
    (parseURL again parsed.getURL).1 = true ∧
      SameFields (parseURL again parsed.getURL).2 parsed

section Whole

variable {url again : TcUrl} {originRequest : List UInt8} {kind : UrlType}
  {text user pass domain port path query ref : List UInt8}

theorem parseScheme_scheme (kind : UrlType) (text : List UInt8) :
    parseScheme (kind.scheme ++ ascii "://" ++ text) = (kind, text) := by
  cases kind <;> rfl

/-- The domain that is left when `parseURL` is done. -/
def shownDomain (domain port : List UInt8) : List UInt8 :=
  if port = ascii "0" then replaceDollar domain else domain

theorem length_shownDomain (domain port : List UInt8) :
    (shownDomain domain port).length = domain.length := by
  rw [shownDomain]
  split
  · exact List.length_map _
  · rfl

theorem finishURL_eq (url : TcUrl) :
    (finishURL url).2 = { url with
      sDomain := shownDomain url.sDomain url.sPort, sURL := url.toURL } := by
  rw [finishURL, shownDomain]
  split <;> rfl

theorem finishURL_accepts_iff (url : TcUrl) :
    (finishURL url).1 = true ↔ Accepts url.sDomain url.sPort := by
  rw [finishURL, Accepts]
  split
  · next same => exact iff_of_true rfl (.inl same)
  · next other =>
      simp only [List.contains_iff_mem, or_iff_right other]

theorem requestText_slash (starts : path.head? = some slash) :
    ∃ rest, requestText path query ref = slash :: rest := by
  cases path with
  | nil => cases starts
  | cons c path =>
      obtain rfl := Option.some.inj starts
      exact ⟨_, rfl⟩

/-- What `toURL` makes of the fields. -/
theorem toURL_eq (nonempty : path ≠ []) :
    TcUrl.toURL
      { iURLType := kind, sUser := user, sPass := pass, sDomain := domain,
        sPort := port, sPath := path, sQuery := query, sRef := ref } =
    kind.scheme ++ ascii "://" ++
      (partsText kind user pass domain port ++ requestText path query ref) := by
  by_cases userless : user = []
  · simp [TcUrl.toURL, TcUrl.getRequest, TcUrl.isDefaultPort, partsText,
      hostText, requestText, userless, nonempty]
  · simp [TcUrl.toURL, TcUrl.getRequest, TcUrl.isDefaultPort, partsText,
      hostText, userText, requestText, userless, nonempty]

theorem AuthorityParts.plain
    (parts : AuthorityParts kind text user pass domain port)
    (plain : Undelimited text) : Undelimited (partsText kind user pass domain port) := by
  obtain ⟨_, fromHost, _⟩ := hostPort_parts parts.hostPort
  obtain ⟨_, fromUser⟩ := userPass_parts parts.userPass
  have inside : (∀ c ∈ (userHost text).1, c ∈ text) ∧
      ∀ c ∈ (userHost text).2, c ∈ text := by
    rcases userHost_cases text with
      ⟨_, whole⟩ | ⟨front, host, rfl, _, both⟩
    · rw [whole]
      exact ⟨fun c member => absurd member List.not_mem_nil, fun c => id⟩
    · rw [both]
      exact ⟨fun c member => List.mem_append_left _ member,
        fun c member => List.mem_append_right _ (.tail _ member)⟩
  have from_text : ∀ c ∈ partsText kind user pass domain port,
      c ∈ text ∨ c = atSign := by
    intro c member
    rw [partsText] at member
    rcases List.mem_append.mp member with member | member
    · split at member
      · rcases List.mem_append.mp member with member | member
        · exact .inl (inside.1 c (fromUser c member))
        · exact .inr (List.mem_singleton.mp member)
      · cases member
    · exact .inl (inside.2 c (fromHost c member))
  obtain ⟨noSlash, noQuestion, noNumbersign⟩ := plain
  refine ⟨?_, ?_, ?_⟩
  · intro member
    exact (from_text _ member).elim noSlash
      (fun same => absurd same (by decide))
  · intro member
    exact (from_text _ member).elim noQuestion
      (fun same => absurd same (by decide))
  · intro member
    exact (from_text _ member).elim noNumbersign
      (fun same => absurd same (by decide))

theorem pathText_cases (behind : List UInt8) :
    pathText behind = [] ∨ (pathText behind).head? = some slash := by
  rw [pathText]
  split
  · next starts => exact starts
  · exact .inr rfl

/-- The path, which is a slash where none is given. -/
def givenPath (path : List UInt8) : List UInt8 :=
  if path = [] then [slash] else path

theorem PathParts.givenPath_eq (parts : PathParts text path query ref)
    (starts : text.head? = some slash) : givenPath path = path := by
  refine if_neg ?_
  rintro rfl
  cases parts with
  | path => cases starts
  | pathRef => exact absurd (Option.some.inj starts) (by decide)
  | query => exact absurd (Option.some.inj starts) (by decide)
  | queryRef => exact absurd (Option.some.inj starts) (by decide)

theorem PathParts.givenPath (parts : PathParts text path query ref)
    (starts : text = [] ∨ text.head? = some slash) :
    (givenPath path).head? = some slash ∧ question ∉ givenPath path ∧
      (Apart (givenPath path) query ref ↔ Apart path query ref) := by
  obtain ⟨unasked, _⟩ := parts.plain
  rw [Http.givenPath]
  split
  · next empty =>
      subst empty
      have nothing : query = [] ∧ ref = [] := by
        cases parts with
        | path => exact ⟨rfl, rfl⟩
        | pathRef => exact absurd starts (by simp; decide)
        | query => exact absurd starts (by simp; decide)
        | queryRef => exact absurd starts (by simp; decide)
      obtain ⟨rfl, rfl⟩ := nothing
      refine ⟨rfl, by decide, iff_of_true ?_ ?_⟩
      · exact ⟨fun _ => by decide, fun _ => List.not_mem_nil⟩
      · exact ⟨fun _ => List.not_mem_nil, fun _ => List.not_mem_nil⟩
  · next nonempty =>
      refine ⟨?_, unasked, Iff.rfl⟩
      have front : ∀ rest, path ++ rest ≠ [] ∧
          (path ++ rest).head? = path.head? := by
        intro rest
        cases path with
        | nil => exact absurd rfl nonempty
        | cons c path => exact ⟨List.cons_ne_nil _ _, rfl⟩
      cases parts with
      | path => exact starts.resolve_left nonempty
      | pathRef => exact (front _).2 ▸ starts.resolve_left (front _).1
      | query => exact (front _).2 ▸ starts.resolve_left (front _).1
      | queryRef => exact (front _).2 ▸ starts.resolve_left (front _).1

theorem parseParts_eq
    (authority : AuthorityParts kind text user pass domain port)
    {sUrlPath : List UInt8} (parts : PathParts sUrlPath path query ref) :
    parseParts kind text sUrlPath =
      { iURLType := kind, sUser := user, sPass := pass, sDomain := domain,
        sPort := port, sPath := givenPath path, sQuery := query,
        sRef := ref } := by
  simp only [parseParts, authority.userPass, authority.hostPort,
    pathQueryRef_eq_iff.mpr parts, givenPath]

/-- The URL of an authority and a path is split into their texts again. -/
theorem parseURL_toURL (plain : Undelimited (partsText kind user pass domain port))
    (starts : path.head? = some slash) (again : TcUrl) :
    parseURL again (TcUrl.toURL
      { iURLType := kind, sUser := user, sPass := pass, sDomain := domain,
        sPort := port, sPath := path, sQuery := query, sRef := ref }) =
      finishURL (parseParts kind (partsText kind user pass domain port)
        (requestText path query ref)) := by
  have nonempty : path ≠ [] := by
    rintro rfl
    cases starts
  obtain ⟨rest, request⟩ := @requestText_slash path query ref starts
  have some : kind.scheme ++ ascii "://" ++
      (partsText kind user pass domain port ++ requestText path query ref) ≠
        [] := by
    cases kind <;> exact List.cons_ne_nil _ _
  rw [toURL_eq nonempty, parseURL, if_neg some, parseScheme_scheme]
  simp only [request]
  rw [splitAuthority_append plain, splitAuthority_slash]
  simp only [List.append_nil]

theorem parseURL_parts (accepted : (parseURL url originRequest).1 = true)
    (last : ¬ FragmentFirst (behindAuthority originRequest)) :
    parseURL url originRequest =
      finishURL (parseParts (parseScheme originRequest).1
        (authority originRequest)
        (pathText (behindAuthority originRequest))) := by
  have nonempty : originRequest ≠ [] := by
    rintro rfl
    cases accepted
  rw [parseURL, if_neg nonempty]
  simp only [splitAuthority_delimited originRequest last]

/-- An accepted text is in normal form exactly if its fragment does not come
first and neither its authority nor its path is ambiguous. -/
theorem normalForm_iff (accepted : (parseURL url originRequest).1 = true) :
    NormalForm url originRequest ↔
      ¬ FragmentFirst (behindAuthority originRequest) ∧
      ¬ AmbiguousAuthority (authority originRequest) ∧
      ¬ AmbiguousPath (pathText (behindAuthority originRequest)) := by
  by_cases last : FragmentFirst (behindAuthority originRequest)
  · refine iff_of_false ?_ fun clear => clear.1 last
    intro normal
    exact (splitAuthority_fst_iff originRequest).mp normal.authority last
  generalize kindOf : (parseScheme originRequest).1 = kind
  obtain ⟨user, pass, domain, port, authorityParts⟩ :=
    exists_authorityParts kind (authority originRequest)
  obtain ⟨path, query, ref, pathParts⟩ :
      ∃ path query ref, PathParts (pathText (behindAuthority originRequest))
        path query ref :=
    ⟨_, _, _, pathQueryRef_eq_iff.mp rfl⟩
  have parsed := parseURL_parts accepted last
  rw [kindOf, parseParts_eq authorityParts pathParts] at parsed
  obtain ⟨starts, unasked, apart⟩ := pathParts.givenPath (pathText_cases _)
  have accepts : Accepts domain port := by
    rw [parsed] at accepted
    exact (finishURL_accepts_iff _).mp accepted
  have plain := authorityParts.plain (plain_authority originRequest)
  have again := fun again => @parseURL_toURL kind user pass domain port
    (givenPath path) query ref plain starts again
  obtain ⟨user', pass', domain', port', authorityParts'⟩ :=
    exists_authorityParts kind (partsText kind user pass domain port)
  obtain ⟨path', query', ref', pathParts'⟩ :
      ∃ path' query' ref', PathParts (requestText (givenPath path) query ref)
        path' query' ref' :=
    ⟨_, _, _, pathQueryRef_eq_iff.mp rfl⟩
  rw [← pathParts.apart_iff, ← apart]
  constructor
  · intro normal
    obtain ⟨_, same⟩ := normal.stable {}
    rw [parsed, finishURL_eq, TcUrl.getURL, again,
      parseParts_eq authorityParts' pathParts', finishURL_eq] at same
    have users : user' = user := same.sUser
    have passes : pass' = pass := same.sPass
    have domains : shownDomain domain' port' = shownDomain domain port :=
      same.sDomain
    have paths : givenPath path' = givenPath path := same.sPath
    have queries : query' = query := same.sQuery
    have refs : ref' = ref := same.sRef
    subst users passes queries refs
    refine ⟨last, ?_, ?_⟩
    · intro ambiguous
      refine partsText_other authorityParts accepts ambiguous authorityParts' ?_
      rw [← length_shownDomain domain' port', domains, length_shownDomain]
    · obtain ⟨rest, request⟩ :=
        @requestText_slash (givenPath path) query' ref' starts
      have whole := pathParts'.givenPath_eq (by rw [request]; rfl)
      rw [whole] at paths
      rw [paths] at pathParts'
      exact pathParts'.apart unasked
  · rintro ⟨_, clear, apart⟩
    refine ⟨(splitAuthority_fst_iff originRequest).mpr last, fun url' => ?_⟩
    have kept := partsText_parts authorityParts clear
    have kept' := apart.pathParts unasked pathParts.plain.2
    have same : givenPath (givenPath path) = givenPath path := by
      refine if_neg fun empty => ?_
      rw [empty] at starts
      cases starts
    rw [parsed] at accepted
    rw [parsed]
    have read := again url'
    rw [parseParts_eq kept kept', same] at read
    intro shown
    have url : shown.getURL = _ := congrArg TcUrl.sURL (finishURL_eq _)
    rw [url, read]
    exact ⟨accepted, rfl, rfl, rfl, rfl, rfl, rfl, rfl, rfl⟩

/-- A URL with all parts. -/
theorem normalForm_iff_full :
    NormalForm {} (ascii "ftp://u:p@a.b:99/x?y#z") := by
  refine (normalForm_iff (by decide)).mpr ⟨?_, ?_, ?_⟩
  · rintro ⟨front, back, parts, _⟩
    have start : (behindAuthority (ascii "ftp://u:p@a.b:99/x?y#z")).head? =
        some slash := by decide
    rw [parts] at start
    exact absurd (Option.some.inj start) (by decide)
  · intro ambiguous
    have parts : AuthorityParts .ftp
        (authority (ascii "ftp://u:p@a.b:99/x?y#z")) (ascii "u") (ascii "p")
        (ascii "a.b") (ascii "99") := ⟨by decide, by decide⟩
    exact absurd (ambiguous.userless parts) (by decide)
  · have parts : PathParts
        (pathText (behindAuthority (ascii "ftp://u:p@a.b:99/x?y#z")))
        (ascii "/x") (ascii "y") (ascii "z") :=
      pathQueryRef_eq_iff.mp (by decide)
    exact parts.apart_iff.mp
      ⟨fun empty => absurd empty (by decide),
        fun empty => absurd empty (by decide)⟩

/-- The fragment comes first; an empty fragment is dropped; a password is
dropped. -/
theorem accepted_not_normal :
    ((parseURL {} (ascii "http://a.b#x?y")).1 = true ∧
        ¬ NormalForm {} (ascii "http://a.b#x?y")) ∧
      ((parseURL {} (ascii "http://a.b/x##")).1 = true ∧
        ¬ NormalForm {} (ascii "http://a.b/x##")) ∧
      ((parseURL {} (ascii "http://:p@a.b/")).1 = true ∧
        ¬ NormalForm {} (ascii "http://:p@a.b/")) := by
  refine ⟨⟨by decide, ?_⟩, ⟨by decide, ?_⟩, ⟨by decide, ?_⟩⟩
  · intro normal
    exact absurd normal.authority (by decide)
  · intro normal
    exact absurd (normal.stable {}).2.sPath (by decide)
  · intro normal
    exact absurd (normal.stable {}).2.sPass (by decide)

end Whole

end TarsCpp.Http
