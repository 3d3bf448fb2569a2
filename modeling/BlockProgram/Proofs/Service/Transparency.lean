import BlockProgram.Proofs.Service.Fingerprint
import BlockProgram.Proofs.Service.Results
import BlockProgram.Service.Generation
import Mathlib.Data.List.Induction

/-! # The cache and the announcements do not show in the answers

A service is called again and again, while its backends fail in any pattern: the cache cannot be
read or written, entries are forgotten or become unreadable, announcements do not get through.  Each
call is compared with the answer of the same service without any backends.

What links the two is `Faithful`: every readable text in the cache is the result of an earlier call,
under the key of that call.  A call that is answered from the cache is thus answered as an earlier
call whose digested text was the same.  If its own format holds no zero character, then it asked for
the same document in the same format with the same options (`preimage_inj`), so the answer is its
own.  If it does, the format is none that is known and the service alone would refuse it; with a
cache it gets what was kept for the other call.
-/
namespace BlockProgram

open Fingerprint

namespace Service

/-- A call: what is asked for, how the backends fare meanwhile, and the identifiers there are to
draw. -/
structure Call where
  order : Order
  conditions : Conditions := {}
  ids : Ids := {}

/-- What happens to a service: it is called, or the text under a key is replaced or forgotten. -/
inductive Happening where
  | call (c : Call)
  | spoil (key text : String)
  | forget (key : String)

variable (s : Service)

def answer (b : Backends) (c : Call) : Except Refusal Delivery :=
  (s.generate c.conditions b c.ids c.order).1

def advance (b : Backends) : Happening → Backends
  | .call c => (s.generate c.conditions b c.ids c.order).2.1
  | .spoil key text => { b with cache := b.cache.map (·.write key text) }
  | .forget key => { b with cache := b.cache.map fun cache => { cache with shelf := cache.shelf.remove key } }

def run (b : Backends) (happenings : List Happening) : Backends := happenings.foldl s.advance b

/-- The answer of a service without backends. -/
def bareAnswer (c : Call) : Except Refusal Delivery := s.answer {} c

/-- What a caller gets: the result and its digest, or a refusal. -/
def content (a : Except Refusal Delivery) : Except Refusal (Result × String) :=
  a.map fun d => (d.result, d.digest)

/-- The text that is digested for an order, if its options are acceptable. -/
def preimage? (order : Order) : Option (List UInt8) :=
  (s.optionsFor order).toOption.map fun o => preimage order.format o order.document

abbrev digestOf (order : Order) (options : Options) : String := ofRequest order.format options order.document

/-- The result does not depend on the identifiers that are drawn. -/
def IgnoresIds (order : Order) : Prop :=
  ∀ options ids ids', s.optionsFor order = .ok options →
    (s.produce options order ids).1 = (s.produce options order ids').1

/-- A text that is not that of a result. -/
def Unreadable (text : String) : Prop := ∀ r, (Json.read text >>= Result.ofJson) ≠ .ok r

/-- What a call announces: a result, if it is fresh, and whether that gets through. -/
def announcedBy (c : Call) : Except Refusal Delivery → List (Announcement × Bool)
  | .ok d => if d.cached then [] else [(announcement c.order d.digest d.result, !c.conditions.announceFails)]
  | .error _ => []

/-! ### One call -/

variable {s} {b : Backends} {c : Call} {options : Options} {r : Result}

/-- A call whose result is in the cache changes nothing. -/
theorem generate_found (hoptions : s.optionsFor c.order = .ok options)
    (hlookup : b.lookup c.conditions (cacheKey (digestOf c.order options)) = some r) :
    s.answer b c = .ok { result := r, digest := digestOf c.order options, cached := true } ∧
      s.advance b (.call c) = b := by
  simp [answer, advance, generate, hoptions, hlookup]

/-- A call whose result is not in the cache, and can be made, keeps and announces it. -/
theorem generate_fresh (hoptions : s.optionsFor c.order = .ok options)
    (hlookup : b.lookup c.conditions (cacheKey (digestOf c.order options)) = none)
    (hproduce : (s.produce options c.order c.ids).1 = .ok r) :
    s.answer b c = .ok { result := r, digest := digestOf c.order options } ∧
      s.advance b (.call c) =
        (b.keep c.conditions (cacheKey (digestOf c.order options)) r).announce c.conditions
          (announcement c.order (digestOf c.order options) r) := by
  cases hmade : s.produce options c.order c.ids with
  | mk outcome ids =>
    obtain rfl : outcome = .ok r := by rw [← hproduce, hmade]
    simp [answer, advance, generate, hoptions, hlookup, hmade]

/-- **What a call does**, by what becomes of it. -/
theorem generate_cases (s : Service) (b : Backends) (c : Call) :
    (∃ r, s.optionsFor c.order = .error r ∧ s.answer b c = .error r ∧ s.advance b (.call c) = b) ∨
    ∃ options digest, s.optionsFor c.order = .ok options ∧ digest = digestOf c.order options ∧
      ((∃ r, b.lookup c.conditions (cacheKey digest) = some r ∧
          s.answer b c = .ok { result := r, digest := digest, cached := true } ∧ s.advance b (.call c) = b) ∨
        b.lookup c.conditions (cacheKey digest) = none ∧
          ((∃ r, (s.produce options c.order c.ids).1 = .error r ∧ s.answer b c = .error r ∧ s.advance b (.call c) = b) ∨
            ∃ r, (s.produce options c.order c.ids).1 = .ok r ∧ s.answer b c = .ok { result := r, digest := digest } ∧
              s.advance b (.call c) = (b.keep c.conditions (cacheKey digest) r).announce c.conditions
                (announcement c.order digest r))) := by
  cases hoptions : s.optionsFor c.order with
  | error r => exact .inl ⟨r, rfl, by simp [answer, generate, hoptions], by simp [advance, generate, hoptions]⟩
  | ok options =>
    refine .inr ⟨options, _, rfl, rfl, ?_⟩
    cases hlookup : b.lookup c.conditions (cacheKey (digestOf c.order options)) with
    | some r => exact .inl ⟨r, rfl, generate_found hoptions hlookup⟩
    | none =>
      refine .inr ⟨rfl, ?_⟩
      cases hmade : s.produce options c.order c.ids with
      | mk outcome ids =>
        cases outcome with
        | error r =>
          exact .inl ⟨r, rfl, by simp [answer, generate, hoptions, hlookup, hmade],
            by simp [advance, generate, hoptions, hlookup, hmade]⟩
        | ok r => exact .inr ⟨r, rfl, generate_fresh hoptions hlookup (by rw [hmade])⟩

theorem bareAnswer_eq (h : s.optionsFor c.order = .ok options) :
    s.bareAnswer c = (s.produce options c.order c.ids).1.map fun r =>
      { result := r, digest := digestOf c.order options } := by
  cases hmade : s.produce options c.order c.ids with
  | mk outcome ids => cases outcome <;> simp [bareAnswer, answer, generate, h, Backends.lookup, hmade, Except.map]

theorem load_format (given : String) (document : List UInt8) (label : String) (ids : Ids) :
    Workspace.load (format given) document label ids = Workspace.load given document label ids := by
  unfold format
  split
  · rename_i hempty
    rw [hempty]
    rfl
  · rfl

variable {order : Order}

/-- What is made depends on the format that is meant, the document and the options. -/
theorem produce_congr {order' : Order} (hformat : format order.format = format order'.format)
    (hdocument : order.document = order'.document) (ids : Ids) :
    s.produce options order ids = s.produce options order' ids := by
  unfold produce loadChecked
  rw [← load_format order.format, ← load_format order'.format, hformat, hdocument]

/-- Only documents in a known format make results, and no known format holds a zero character. -/
theorem zero_notMem_format {ids : Ids}
    (h : (s.produce options order ids).1 = .ok r) : '\x00' ∉ order.format.toList := by
  by_cases hjson : order.format = "" ∨ order.format = "json"
  · rcases hjson with hformat | hformat <;> rw [hformat] <;> decide
  · by_cases hhcl : order.format = "hcl"
    · rw [hhcl]
      decide
    · have hload : ∃ e, Workspace.load order.format order.document "request" ids = (.error e, ids) :=
        ⟨_, by simp_all [Workspace.load]; rfl⟩
      obtain ⟨e, hload⟩ := hload
      simp [produce, loadChecked, hload] at h

/-! ### What the cache holds -/

variable {conditions : Conditions} {key : String}

/-- What is found in the cache was read from an entry. -/
theorem lookup_eq_some (hr : b.lookup conditions key = some r) :
    ∃ cache entry, cache ∈ b.cache ∧ cache.shelf.get? key = some entry ∧
      (Json.read entry.text >>= Result.ofJson) = .ok r := by
  unfold Backends.lookup at hr
  split at hr
  · cases hr
  obtain ⟨cache, hcache, hr⟩ := Option.bind_eq_some_iff.mp hr
  simp only [ValueCache.getWith, ValueCache.text?] at hr
  split at hr
  · cases hr
  · cases hr
  · rename_i text htext
    split at htext
    · cases htext
    · obtain ⟨entry, hentry, rfl⟩ := Option.map_eq_some_iff.mp (Except.ok.inj htext)
      refine ⟨cache, entry, hcache, hentry, ?_⟩
      cases hread : (Json.read entry.text >>= Result.ofJson) with
      | error f => simp [hread, Except.toOption] at hr
      | ok r' => simpa [hread, Except.toOption] using hr

/-- A cache in which a result is kept has one new text at most. -/
theorem mem_cache_keep {a : Announcement}
    {cache' : ValueCache} (h : cache' ∈ ((b.keep conditions key r).announce conditions a).cache) :
    ∃ cache ∈ b.cache, cache'.shelf = cache.shelf ∨
      ∃ entry : ValueCache.Entry, entry.text = r.json.compact ∧ cache'.shelf = cache.shelf.put key entry := by
  simp only [Backends.announce, Backends.keep] at h
  split at h
  · exact ⟨cache', h, .inl rfl⟩
  · obtain ⟨cache, hcache, rfl⟩ := Option.map_eq_some_iff.mp h
    refine ⟨cache, hcache, ?_⟩
    unfold ValueCache.keep
    split
    · exact .inl rfl
    · exact .inr ⟨_, rfl, rfl⟩

/-- A text under a key is unreadable, or that of the result of a call with this key. -/
def Kept (s : Service) (happenings : List Happening) (key text : String) : Prop :=
  Unreadable text ∨ ∃ c options r, .call c ∈ happenings ∧ s.optionsFor c.order = .ok options ∧
    key = cacheKey (digestOf c.order options) ∧
    (s.produce options c.order c.ids).1 = .ok r ∧ text = r.json.compact

/-- All texts in the cache are of this kind. -/
def Faithful (s : Service) (happenings : List Happening) (b : Backends) : Prop :=
  ∀ cache ∈ b.cache, ∀ key entry, cache.shelf.get? key = some entry → s.Kept happenings key entry.text

variable {happenings : List Happening}

theorem Kept.mono {text : String} (h : s.Kept happenings key text) (new : Happening) :
    s.Kept (happenings ++ [new]) key text := by
  refine h.imp_right ?_
  rintro ⟨c, options, r, hc, hrest⟩
  exact ⟨c, options, r, List.mem_append_left _ hc, hrest⟩

theorem Faithful.mono (hb : s.Faithful happenings b) (new : Happening) : s.Faithful (happenings ++ [new]) b :=
  fun cache hcache key entry hentry => (hb cache hcache key entry hentry).mono new

/-- What is found in the cache is the result of a call with the same key. -/
theorem Faithful.lookup (hb : s.Faithful happenings b) (hr : b.lookup conditions key = some r) :
    ∃ c options, .call c ∈ happenings ∧ s.optionsFor c.order = .ok options ∧
      key = cacheKey (digestOf c.order options) ∧
      (s.produce options c.order c.ids).1 = .ok r := by
  obtain ⟨cache, entry, hcache, hentry, hread⟩ := lookup_eq_some hr
  rcases hb cache hcache key entry hentry with hbad | ⟨c, options, r', hc, hoptions, hkey, hproduce, htext⟩
  · exact absurd hread (hbad r)
  · rw [htext, Result.read_json] at hread
    obtain rfl := Except.ok.inj hread
    exact ⟨c, options, hc, hoptions, hkey, hproduce⟩

/-- One text is put into the cache, and it is of the right kind. -/
theorem Faithful.put (hb : s.Faithful happenings b) {b' : Backends} {text : String}
    (hput : ∀ cache' ∈ b'.cache, ∃ cache ∈ b.cache, cache'.shelf = cache.shelf ∨
      ∃ entry : ValueCache.Entry, entry.text = text ∧ cache'.shelf = cache.shelf.put key entry)
    (htext : s.Kept happenings key text) : s.Faithful happenings b' := by
  intro cache' hcache' k entry hentry
  obtain ⟨cache, hcache, hsame | ⟨new, rfl, hnew⟩⟩ := hput cache' hcache'
  · rw [hsame] at hentry
    exact hb cache hcache k entry hentry
  · rw [hnew, Shelf.get?_put] at hentry
    split at hentry
    · rename_i hk
      obtain rfl := Option.some.inj hentry
      exact hk ▸ htext
    · exact hb cache hcache k entry hentry

theorem faithful_call (hb : s.Faithful happenings b) (c : Call) :
    s.Faithful (happenings ++ [.call c]) (s.advance b (.call c)) := by
  rcases s.generate_cases b c with ⟨r, -, -, hsame⟩ | ⟨options, digest, hoptions, hdigest, hcase⟩
  · rw [hsame]
    exact hb.mono _
  obtain ⟨r, -, -, hsame⟩ | ⟨-, ⟨r, -, -, hsame⟩ | ⟨r, hproduce, -, hfresh⟩⟩ := hcase
  iterate 2
    rw [hsame]
    exact hb.mono _
  · rw [hfresh]
    refine (hb.mono _).put (fun cache' hcache' => mem_cache_keep hcache') (.inr ?_)
    exact ⟨c, options, r, by simp, hoptions, by rw [hdigest], hproduce, rfl⟩

theorem faithful_advance (hb : s.Faithful happenings b) {new : Happening}
    (hspoil : ∀ key text, new = .spoil key text → Unreadable text) :
    s.Faithful (happenings ++ [new]) (s.advance b new) := by
  cases new with
  | call c => exact faithful_call hb c
  | spoil key text =>
    have hkept : s.Kept (happenings ++ [.spoil key text]) key text := .inl (hspoil key text rfl)
    refine (hb.mono _).put (fun cache' hcache' => ?_) hkept
    obtain ⟨cache, hcache, rfl⟩ := Option.map_eq_some_iff.mp hcache'
    exact ⟨cache, hcache, .inr ⟨_, rfl, rfl⟩⟩
  | forget key =>
    intro cache' hcache' k entry hentry
    obtain ⟨cache, hcache, rfl⟩ := Option.map_eq_some_iff.mp hcache'
    rw [Shelf.get?_remove] at hentry
    split at hentry
    · cases hentry
    · exact (hb.mono _) cache hcache k entry hentry

theorem run_append (happenings : List Happening) (h : Happening) :
    s.run b (happenings ++ [h]) = s.advance (s.run b happenings) h := by
  simp [run]

theorem faithful_run (hempty : ∀ cache ∈ b.cache, cache.shelf = {})
    (hspoil : ∀ key text, .spoil key text ∈ happenings → Unreadable text) :
    s.Faithful happenings (s.run b happenings) := by
  induction happenings using List.reverseRecOn with
  | nil =>
    intro cache hcache key entry hentry
    rw [hempty cache hcache] at hentry
    cases hentry
  | append_singleton happenings h ih =>
    rw [run_append]
    refine faithful_advance (ih fun key text hmem => hspoil key text (List.mem_append_left _ hmem)) ?_
    rintro key text rfl
    exact hspoil key text (by simp)

theorem announced_call (s : Service) (b : Backends) (c : Call) :
    (s.advance b (.call c)).announced = b.announced.map (· ++ announcedBy c (s.answer b c)) := by
  have hquiet : ∀ a, announcedBy c a = [] → s.advance b (.call c) = b → s.answer b c = a →
      (s.advance b (.call c)).announced = b.announced.map (· ++ announcedBy c (s.answer b c)) := by
    rintro a hnothing hsame rfl
    rw [hsame, hnothing]
    simp
  rcases s.generate_cases b c with ⟨r, -, hanswer, hsame⟩ | ⟨options, digest, -, -, hcase⟩
  · exact hquiet _ rfl hsame hanswer
  rcases hcase with ⟨r, -, hanswer, hsame⟩ | ⟨-, ⟨r, -, hanswer, hsame⟩ | ⟨r, -, hanswer, hfresh⟩⟩
  · exact hquiet _ rfl hsame hanswer
  · exact hquiet _ rfl hsame hanswer
  · rw [hfresh, hanswer]
    simp only [Backends.announce, Backends.keep]
    split <;> rfl

theorem cacheKey_inj {digest digest' : String} (h : cacheKey digest = cacheKey digest') : digest = digest' := by
  have hlist := congrArg String.toList h
  simp only [cacheKey, String.toList_append] at hlist
  exact String.toList_inj.mp (List.append_cancel_left hlist)

/-! ### Every call -/

/-- A call is answered as without backends, or from the cache with the result of an earlier call
that has the same digest. -/
theorem Faithful.answer (hb : s.Faithful happenings b) (c : Call) : content (s.answer b c) = content (s.bareAnswer c) ∨
    ∃ c' options options', .call c' ∈ happenings ∧ s.optionsFor c.order = .ok options ∧
    s.optionsFor c'.order = .ok options' ∧
    digestOf c.order options = digestOf c'.order options' ∧
      ∃ r, (s.produce options' c'.order c'.ids).1 = .ok r ∧
        content (s.answer b c) = .ok (r, digestOf c.order options) := by
  rcases s.generate_cases b c with ⟨r, hrefused, hanswer, -⟩ | ⟨options, digest, hoptions, rfl, hcase⟩
  · refine .inl (congrArg content (hanswer.trans ?_))
    simp [bareAnswer, Service.answer, generate, hrefused]
  rcases hcase with ⟨r, hlookup, hanswer, -⟩ | ⟨-, ⟨r, hproduce, hanswer, -⟩ | ⟨r, hproduce, hanswer, -⟩⟩
  · obtain ⟨c', options', hc', hoptions', hkey, hproduce⟩ := hb.lookup hlookup
    refine .inr ⟨c', options, options', hc', hoptions, hoptions', cacheKey_inj hkey, r, hproduce, ?_⟩
    rw [hanswer]
    rfl
  · exact .inl (by rw [hanswer, bareAnswer_eq hoptions, hproduce]; rfl)
  · exact .inl (by rw [hanswer, bareAnswer_eq hoptions, hproduce]; rfl)

/-- **Backends do not show.**  Let the digests of the calls differ wherever the digested texts do,
let results not depend on identifiers (or all calls draw the same ones), and let texts that are put
into the cache from outside be unreadable.  Then, whatever fails and whenever:

* a call gets what a service without backends would give to a call with the same digested text,
  which is the call itself or one before it;
* it gets what a service without backends would give to it, unless its format holds a zero
  character;
* one announcement is tried if it gets a fresh result, and none otherwise. -/
theorem run_answers_as_bare (s : Service) (b : Backends) (happenings : List Happening) (ids : Ids)
    (hempty : ∀ cache ∈ b.cache, cache.shelf = {})
    (hspoil : ∀ key text, .spoil key text ∈ happenings → Unreadable text)
    (hdigests : ∀ c c' p p', .call c ∈ happenings → .call c' ∈ happenings → s.preimage? c.order = some p →
      s.preimage? c'.order = some p' →
      Digest.hex (Digest.Blake2b.digest p) = Digest.hex (Digest.Blake2b.digest p') → p = p')
    (hids : ∀ c, .call c ∈ happenings → c.ids = ids ∨ s.IgnoresIds c.order) :
    ∀ before c after, happenings = before ++ .call c :: after →
      (∃ c', (c' = c ∨ .call c' ∈ before) ∧ s.preimage? c'.order = s.preimage? c.order ∧
        content (s.answer (s.run b before) c) = content (s.bareAnswer c')) ∧
      ('\x00' ∉ c.order.format.toList → content (s.answer (s.run b before) c) = content (s.bareAnswer c)) ∧
      (s.run b (before ++ [.call c])).announced =
        (s.run b before).announced.map (· ++ announcedBy c (s.answer (s.run b before) c)) := by
  rintro before c after rfl
  have hfaithful : s.Faithful before (s.run b before) :=
    faithful_run hempty fun key text hmem => hspoil key text (List.mem_append_left _ hmem)
  have hannounced : (s.run b (before ++ [.call c])).announced =
      (s.run b before).announced.map (· ++ announcedBy c (s.answer (s.run b before) c)) := by
    rw [run_append, announced_call]
  rcases hfaithful.answer c with hsame | hkept
  · exact ⟨⟨c, .inl rfl, rfl, hsame⟩, fun _ => hsame, hannounced⟩
  -- it was answered from the cache, with what was kept for a call `c'` before it
  obtain ⟨c', options, options', hc', hoptions, hoptions', hdigest, r, hproduce, hanswer⟩ := hkept
  have hmem : Happening.call c ∈ before ++ .call c :: after := by simp
  have hmem' : Happening.call c' ∈ before ++ .call c :: after := List.mem_append_left _ hc'
  have hpreimage : preimage c.order.format options c.order.document =
      preimage c'.order.format options' c'.order.document :=
    hdigests c c' _ _ hmem hmem' (by rw [preimage?, hoptions]; rfl) (by rw [preimage?, hoptions']; rfl) hdigest
  refine ⟨⟨c', .inr hc', ?_, ?_⟩, fun hzero => ?_, hannounced⟩
  · rw [preimage?, preimage?, hoptions, hoptions']
    exact congrArg some hpreimage.symm
  · rw [hanswer, bareAnswer_eq hoptions', hproduce, hdigest]
    rfl
  · obtain ⟨hformat, rfl, hdocument⟩ := preimage_inj hzero (zero_notMem_format hproduce) hpreimage
    -- both calls ask for the same, and the identifiers do not matter
    have hmade : (s.produce options c.order c.ids).1 = .ok r := by
      have hsame : ∀ ids, s.produce options c.order ids = s.produce options c'.order ids :=
        produce_congr hformat hdocument
      rcases hids c hmem with hown | hown
      · rcases hids c' hmem' with hother | hother
        · rw [hsame, hown, ← hother, hproduce]
        · rw [hsame, hother options _ c'.ids hoptions', hproduce]
      · rw [hown options _ c'.ids hoptions, hsame, hproduce]
    rw [hanswer, bareAnswer_eq hoptions, hmade]
    rfl

/-! ### A format that holds zero characters -/

/-- Calls with the same digested text have the same digest. -/
theorem ofRequest_eq_of_preimage? {order' : Order}
    (hoptions : s.optionsFor order = .ok options) (h : s.preimage? order' = s.preimage? order) :
    ∃ options', s.optionsFor order' = .ok options' ∧ digestOf order' options' = digestOf order options := by
  rw [preimage?, preimage?, hoptions] at h
  obtain ⟨options', hoptions', hsame⟩ := Option.map_eq_some_iff.mp h
  refine ⟨options', ?_, by rw [digestOf, ofRequest, hsame, digestOf, ofRequest]⟩
  cases horder' : s.optionsFor order' with
  | error e => simp [horder', Except.toOption] at hoptions'
  | ok o => simpa [horder', Except.toOption] using hoptions'

/-- A fresh result that a working cache has kept is found again by the next call with the same
digested text. -/
theorem answer_again {cache : ValueCache} {c' : Call}
    (hcache : b.cache = some cache) (hworks : cache.refused = []) (hconditions : c.conditions = {})
    (hconditions' : c'.conditions = {}) (hoptions : s.optionsFor c.order = .ok options)
    (hmiss : b.lookup c.conditions (cacheKey (digestOf c.order options)) = none)
    (hproduce : (s.produce options c.order c.ids).1 = .ok r) (hpreimage : s.preimage? c'.order = s.preimage? c.order) :
    content (s.answer (s.advance b (.call c)) c') = .ok (r, digestOf c.order options) := by
  obtain ⟨options', hoptions', hdigest⟩ := ofRequest_eq_of_preimage? hoptions hpreimage
  have hfound : (s.advance b (.call c)).lookup c'.conditions (cacheKey (digestOf c'.order options')) = some r := by
    have hread := r.read_json
    rw [hdigest, (generate_fresh hoptions hmiss hproduce).2]
    simp [Backends.lookup, Backends.announce, Backends.keep, hconditions, hconditions', hcache,
      ValueCache.keep, hworks, ValueCache.getWith, ValueCache.text?, Except.toOption, hread]
  rw [(generate_found hoptions' hfound).1, hdigest]
  rfl

/-- A call with a document that goes on, behind a zero byte, as if options and another document
followed. -/
def longDocument : Call :=
  { order :=
      { format := "json"
        document := Digest.bytesOf "\x7b\x7d" ++
          0 :: (Digest.bytesOf (Options.completed {}).json ++ 0 :: Digest.bytesOf "x") } }

/-- A call with a format that holds all of that text but its end. -/
def longFormat : Call :=
  { order :=
      { format := "json" ++ "\x00" ++ (Options.completed {}).json ++ "\x00" ++ "\x7b\x7d"
        document := Digest.bytesOf "x" } }

theorem optionsFor_default (hoptions : order.options = none) (hoverrides : order.overrides = "") :
    Service.optionsFor {} order = .ok (Options.completed {}) := by
  have hnone : overridesText? "" = none := by decide
  rw [optionsFor, hoptions, hoverrides, hnone]

theorem preimage?_longFormat : Service.preimage? {} longFormat.order = Service.preimage? {} longDocument.order := by
  have hformat : format longFormat.order.format = longFormat.order.format :=
    if_neg (by simp [longFormat, ← String.toList_inj])
  have hjson : format longDocument.order.format = "json" := rfl
  have hzero : Digest.bytesOf "\x00" = [0] := by rw [Digest.bytesOf_eq]; decide
  have hsame : preimage longFormat.order.format (Options.completed {}) longFormat.order.document =
      preimage longDocument.order.format (Options.completed {}) longDocument.order.document := by
    rw [preimage, preimage, hformat, hjson]
    simp only [longFormat, longDocument, Digest.bytesOf_append, hzero, List.append_assoc, List.cons_append,
      List.nil_append]
  rw [preimage?, preimage?, optionsFor_default rfl rfl, optionsFor_default rfl rfl]
  exact congrArg some hsame

theorem produce_longDocument : ∃ r, (Service.produce {} (Options.completed {}) longDocument.order {}).1 = .ok r := by
  have hsome : (Service.produce {} (Options.completed {}) longDocument.order {}).1.toOption.isSome = true := by
    decide +kernel
  generalize (Service.produce {} (Options.completed {}) longDocument.order {}).1 = made at hsome ⊢
  cases made with
  | error e => cases hsome
  | ok r => exact ⟨r, rfl⟩

def emptyBackends : Backends := { cache := some { lifetime := 0 }, announced := some [] }

theorem bareAnswer_longFormat : Service.bareAnswer {} longFormat =
      .error (.document (.unsupported "request" longFormat.order.format)) := by
  have hzero : '\x00' ∈ longFormat.order.format.toList := by
    simp only [longFormat, String.toList_append, List.mem_append]
    exact .inl (.inl (.inl (.inr (by decide))))
  have hunknown : ∀ known : String, '\x00' ∉ known.toList → longFormat.order.format ≠ known :=
    fun known hknown heq => hknown (heq ▸ hzero)
  have hload : ∀ ids, Workspace.load longFormat.order.format longFormat.order.document "request" ids =
      (.error (.unsupported "request" longFormat.order.format), ids) := by
    intro ids
    simp [Workspace.load, hunknown "" (by decide), hunknown "json" (by decide), hunknown "hcl" (by decide)]
  rw [bareAnswer_eq (optionsFor_default rfl rfl), produce, loadChecked, hload]
  rfl

/-- With a cache, the call with the unknown format is answered after the other one, and as that one
was; without backends it is refused. -/
theorem run_answers_as_bare_longFormat : Service.bareAnswer {} longFormat =
        .error (.document (.unsupported "request" longFormat.order.format)) ∧
      (∃ x, content (Service.answer {}
        (Service.run {} emptyBackends [.spoil "gen:" "", .call longDocument]) longFormat) = .ok x) ∧
      ∃ c', (c' = longFormat ∨ Happening.call c' ∈ [.spoil "gen:" "", .call longDocument]) ∧
        Service.preimage? {} c'.order = Service.preimage? {} longFormat.order ∧
        content (Service.answer {} (Service.run {} emptyBackends [.spoil "gen:" "", .call longDocument]) longFormat) =
            content (Service.bareAnswer {} c') := by
  have hspoil : Unreadable "" := by
    intro r h
    have hread : Json.read "" = .error .endOfText := rfl
    rw [hread] at h
    cases h
  have hempty : ∀ cache ∈ emptyBackends.cache, cache.shelf = {} := by
    rintro cache ⟨⟩
    rfl
  refine ⟨bareAnswer_longFormat, ?_, ?_⟩
  · obtain ⟨r, hproduce⟩ := produce_longDocument
    have hrun : Service.run {} emptyBackends [.spoil "gen:" "", .call longDocument] =
        Service.advance {} (Service.run {} emptyBackends [.spoil "gen:" ""]) (.call longDocument) :=
      run_append [.spoil "gen:" ""] (.call longDocument)
    rw [hrun]
    refine ⟨_, answer_again (b := Service.run {} emptyBackends [.spoil "gen:" ""]) rfl rfl rfl rfl
      (optionsFor_default rfl rfl) ?_ hproduce preimage?_longFormat⟩
    -- nothing readable is in the cache before the first call
    have hfaithful : Service.Faithful {} [.spoil "gen:" ""] (Service.run {} emptyBackends [.spoil "gen:" ""]) :=
      faithful_run hempty (by simpa using hspoil)
    cases hlookup : Backends.lookup _ _ _ with
    | none => rfl
    | some r =>
      obtain ⟨c, -, hc, -⟩ := hfaithful.lookup hlookup
      simp at hc
  · have hcalls : ∀ c, Happening.call c ∈ [.spoil "gen:" "", .call longDocument, .call longFormat] →
        c.ids = {} ∧ Service.preimage? {} c.order = Service.preimage? {} longDocument.order := by
      intro c hc
      have hc : c = longDocument ∨ c = longFormat := by simpa using hc
      rcases hc with rfl | rfl
      · exact ⟨rfl, rfl⟩
      · exact ⟨rfl, preimage?_longFormat⟩
    refine (run_answers_as_bare {} emptyBackends [.spoil "gen:" "", .call longDocument, .call longFormat] {}
      hempty (by simpa using hspoil) ?_ (fun c hc => .inl (hcalls c hc).1) _ longFormat [] rfl).1
    intro c c' p p' hc hc' hp hp' _
    rw [(hcalls c hc).2] at hp
    rw [(hcalls c' hc').2, hp] at hp'
    exact Option.some.inj hp'

end Service

end BlockProgram
