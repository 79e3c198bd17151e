import RedisClient.FrameLanding

/-!
# Where the parsers leave the items of a buffer

`Reaches` names the frame at which the parsers come to a halt, and how many
items they still want behind it.  What that frame tells is what becomes of the
whole call.
-/

namespace RedisClient

open Basis

/-- `Reaches wanted bytes left site`: of so many items one is read at `site`,
with so many left behind it. -/
inductive Reaches : Nat → Bytes → Nat → Bytes → Prop where
  | here (wanted : Nat) (bytes : Bytes) :
      Reaches (wanted + 1) bytes wanted bytes
  | item {wanted left : Nat} {bytes rest site : Bytes} :
      frame bytes = .item rest → Reaches wanted rest left site →
      Reaches (wanted + 1) bytes left site
  | inside {wanted count left : Nat} {bytes elements site : Bytes} :
      frame bytes = .announces count elements →
      Reaches count elements left site →
      Reaches (wanted + 1) bytes (left + wanted) site
  | behind {wanted count left : Nat} {bytes elements rest site : Bytes} :
      frame bytes = .announces count elements → Passes count elements rest →
      Reaches wanted rest left site → Reaches (wanted + 1) bytes left site

theorem Arrives.reaches {wanted : Nat} {bytes : Bytes} {halt : Halt}
    (arrives : Arrives wanted bytes halt) :
    ∃ left site, Reaches wanted bytes left site ∧ frame site = .halts halt := by
  induction arrives with
  | here found => exact ⟨_, _, .here _ _, found⟩
  | item found arrives induction =>
      obtain ⟨left, site, reaches, halts⟩ := induction
      exact ⟨left, site, .item found reaches, halts⟩
  | inside found arrives induction =>
      obtain ⟨left, site, reaches, halts⟩ := induction
      exact ⟨_, site, .inside found reaches, halts⟩
  | behind found passes arrives induction =>
      obtain ⟨left, site, reaches, halts⟩ := induction
      exact ⟨left, site, .behind found passes reaches, halts⟩

theorem Passes.ne_nil {wanted : Nat} {bytes last : Bytes}
    (passes : Passes (wanted + 1) bytes last) : bytes ≠ [] := by
  rintro rfl
  cases passes with
  | item found passes => cases found
  | array found elementsPass passes => cases found

theorem Reaches.ne_nil {wanted left : Nat} {bytes site : Bytes}
    (reaches : Reaches wanted bytes left site)
    (notEof : frame site ≠
      .halts (.stops ParseErrorCode.eof.toErrorCode true)) : bytes ≠ [] := by
  rintro rfl
  cases reaches with
  | here wanted bytes => exact notEof rfl
  | item found reaches => cases found
  | inside found reaches => cases found
  | behind found passes reaches => cases found

/-! ## One story for every buffer -/

theorem Passes.unique {wanted : Nat} {bytes last other : Bytes}
    (passes : Passes wanted bytes last)
    (otherPasses : Passes wanted bytes other) : last = other := by
  induction passes generalizing other with
  | done bytes =>
      cases otherPasses
      rfl
  | item found passes induction =>
      cases otherPasses with
      | item otherFound later =>
          cases found.symm.trans otherFound
          exact induction later
      | array otherFound elements later =>
          cases found.symm.trans otherFound
  | array found elementsPass passes elementsInduction induction =>
      cases otherPasses with
      | item otherFound later => cases found.symm.trans otherFound
      | array otherFound elements later =>
          cases found.symm.trans otherFound
          cases elementsInduction elements
          exact induction later

theorem Passes.not_reaches {wanted left : Nat} {bytes last site : Bytes}
    {halt : Halt} (passes : Passes wanted bytes last)
    (reaches : Reaches wanted bytes left site) :
    frame site ≠ .halts halt := by
  induction passes generalizing left with
  | done bytes => cases reaches
  | item found passes induction =>
      cases reaches with
      | here => simp [found]
      | item otherFound later =>
          cases found.symm.trans otherFound
          exact induction later
      | inside otherFound elements => cases found.symm.trans otherFound
      | behind otherFound elements later => cases found.symm.trans otherFound
  | array found elementsPass passes elementsInduction induction =>
      cases reaches with
      | here => simp [found]
      | item otherFound later => cases found.symm.trans otherFound
      | inside otherFound elements =>
          cases found.symm.trans otherFound
          exact elementsInduction elements
      | behind otherFound elements later =>
          cases found.symm.trans otherFound
          cases elementsPass.unique elements
          exact induction later

theorem Reaches.unique {wanted left otherLeft : Nat}
    {bytes site otherSite : Bytes} {halt otherHalt : Halt}
    (reaches : Reaches wanted bytes left site)
    (halts : frame site = .halts halt)
    (otherReaches : Reaches wanted bytes otherLeft otherSite)
    (otherHalts : frame otherSite = .halts otherHalt) : site = otherSite := by
  induction reaches generalizing otherLeft with
  | here wanted bytes =>
      cases otherReaches with
      | here => rfl
      | item found later => cases halts.symm.trans found
      | inside found elements => cases halts.symm.trans found
      | behind found elements later => cases halts.symm.trans found
  | item found reaches induction =>
      cases otherReaches with
      | here => cases found.symm.trans otherHalts
      | item otherFound later =>
          cases found.symm.trans otherFound
          exact induction halts later
      | inside otherFound elements => cases found.symm.trans otherFound
      | behind otherFound elements later => cases found.symm.trans otherFound
  | inside found reaches induction =>
      cases otherReaches with
      | here => cases found.symm.trans otherHalts
      | item otherFound later => cases found.symm.trans otherFound
      | inside otherFound elements =>
          cases found.symm.trans otherFound
          exact induction halts elements
      | behind otherFound elements later =>
          cases found.symm.trans otherFound
          exact absurd halts (elements.not_reaches reaches)
  | behind found passes reaches induction =>
      cases otherReaches with
      | here => cases found.symm.trans otherHalts
      | item otherFound later => cases found.symm.trans otherFound
      | inside otherFound elements =>
          cases found.symm.trans otherFound
          exact absurd otherHalts (passes.not_reaches elements)
      | behind otherFound elements later =>
          cases found.symm.trans otherFound
          cases passes.unique elements
          exact induction halts later

/-! ## Where a call lands -/

section Landing

variable {front bytes rest : Bytes} {room it : Nat}

private theorem landing_item (cursor : At front it bytes)
    (found : frame bytes = .item rest) (room : Nat) :
    ∃ next, At front next rest ∧ landing front room it = .succeeds next := by
  have tells := parsePadded_frame cursor room
  rw [found] at tells
  obtain ⟨response, call, success, behind⟩ := tells
  exact ⟨_, behind, (congrArg ending call).trans (ending_of_success success)⟩

private theorem landing_announces {count : Nat} (cursor : At front it bytes)
    (found : frame bytes = .announces count rest) (room : Nat) :
    ∃ next, At front next rest ∧
      landing front room it = landingAll front room count next := by
  have tells := parsePadded_frame cursor room
  rw [found] at tells
  obtain ⟨next, elementsCursor, call⟩ := tells
  exact ⟨next, elementsCursor, congrArg ending call⟩

theorem Passes.landingAll {wanted : Nat} {last : Bytes}
    (passes : Passes wanted bytes last) (cursor : At front it bytes)
    (room : Nat) :
    ∃ next, At front next last ∧
      RedisClient.landingAll front room wanted it = .succeeds next := by
  induction passes generalizing it with
  | done bytes => exact ⟨it, cursor, rfl⟩
  | item found passes induction =>
      obtain ⟨next, behind, call⟩ := landing_item cursor found room
      rw [landingAll_succ, call]
      exact induction behind
  | array found elementsPass passes elementsInduction induction =>
      obtain ⟨next, elementsCursor, call⟩ := landing_announces cursor found room
      obtain ⟨last, behind, elementsCall⟩ := elementsInduction elementsCursor
      rw [landingAll_succ, call, elementsCall]
      exact induction behind

/-- Where the items at a site are left to their own end, the loop continues
with what is left. -/
theorem Reaches.landingAll {wanted left : Nat} {site : Bytes}
    (reaches : Reaches wanted bytes left site) (cursor : At front it bytes)
    (room : Nat) :
    ∃ there, At front there site ∧
      RedisClient.landingAll front room wanted it =
        (landing front room there).andThen
          (RedisClient.landingAll front room left) := by
  induction reaches generalizing it with
  | here wanted bytes => exact ⟨it, cursor, landingAll_succ wanted it⟩
  | item found reaches induction =>
      obtain ⟨next, behind, call⟩ := landing_item cursor found room
      rw [landingAll_succ, call]
      exact induction behind
  | @inside wanted count left bytes elements site found reaches induction =>
      obtain ⟨next, elementsCursor, call⟩ := landing_announces cursor found room
      obtain ⟨there, siteCursor, elementsCall⟩ := induction elementsCursor
      refine ⟨there, siteCursor, ?_⟩
      have later : RedisClient.landingAll front room (left + wanted) =
          fun it => (RedisClient.landingAll front room left it).andThen
            (RedisClient.landingAll front room wanted) :=
        funext (landingAll_add left wanted)
      rw [landingAll_succ, call, elementsCall, Ending.andThen_assoc, later]
  | behind found passes reaches induction =>
      obtain ⟨next, elementsCursor, call⟩ := landing_announces cursor found room
      obtain ⟨last, restCursor, elementsCall⟩ :=
        passes.landingAll elementsCursor room
      rw [landingAll_succ, call, elementsCall]
      exact induction restCursor

theorem Passes.landing {last : Bytes} (passes : Passes 1 bytes last)
    (cursor : At front it bytes) (room : Nat) :
    ∃ next, At front next last ∧
      RedisClient.landing front room it = .succeeds next := by
  rw [← landingAll_one]
  exact passes.landingAll cursor room

/-- Where a call lands that comes to a halt at `site`, with `left` items still
wanted behind it. -/
def HaltLands (front : Bytes) (room it left : Nat) (site : Bytes) : Halt → Prop
  | .stops _ true =>
      ∃ next, At front next (behindLine site) ∧
        landing front room it = .fails next
  | .stops _ false => landing front room it = .fails (front.length + 1)
  | .throws exception => landing front room it = .throws exception
  | .overruns =>
      0 < (overrun site).distance ∧
        landing front room it = (overrun site).landing room front.length left

/-- A call that comes to a halt lands where the frame at its site says. -/
theorem Reaches.lands {left : Nat} {site : Bytes} {halt : Halt}
    (reaches : Reaches 1 bytes left site) (cursor : At front it bytes)
    (room : Nat) (found : frame site = .halts halt) :
    HaltLands front room it left site halt := by
  obtain ⟨there, siteCursor, call⟩ := reaches.landingAll cursor room
  rw [landingAll_one] at call
  have tells := parsePadded_frame siteCursor room
  rw [found] at tells
  cases halt with
  | stops code inside =>
      obtain ⟨response, siteCall, rfl, failing, shown, behind⟩ := tells
      have fails : landing front room there = .fails response.it :=
        (congrArg ending siteCall).trans (ending_of_error failing)
      rw [fails] at call
      cases inside with
      | true => exact ⟨_, behind, call⟩
      | false =>
          rw [if_neg Bool.false_ne_true] at behind
          rw [behind] at call
          exact call
  | throws exception =>
      have throws : landing front room there = .throws exception :=
        congrArg ending tells
      rw [throws] at call
      exact call
  | overruns =>
      obtain ⟨positive, siteLanding⟩ := tells
      refine ⟨positive, call.trans ?_⟩
      rw [siteLanding, Overrun.landing_andThen positive, Nat.zero_add]

end Landing

end RedisClient
