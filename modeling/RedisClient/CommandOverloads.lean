import RedisClient.CommandBuilders

/-!
# Overloads for several items

The overload of a function for a collection is to build the command of its
overload for one item, with the texts of all items where that one has the text
of its own.  Eleven pairs of functions are written out by hand; one of them
takes the verb of another function.
-/

namespace RedisClient

open Basis

/-- The two overloads of a function, for one item and for the items of a
collection, build commands of the same frame.  For a collection of one item
they build the same command. -/
structure Extends {α β κ : Type} [Item α] [Item β] (items : κ → List β)
    (single : α → Outcome BadCast Command)
    (multi : κ → Outcome BadCast Command) : Prop where
  one : ∀ item listed texts collection, SpelledBy item texts →
    SpelledBy listed texts → items collection = [listed] →
    multi collection = single item
  frame : ∃ front back,
    (∀ item texts, SpelledBy item texts →
      single item = .returns ⟨front ++ texts ++ back⟩) ∧
    ∀ collection texts, List.Forall₂ SpelledBy (items collection) texts →
      multi collection = .returns ⟨front ++ texts.flatten ++ back⟩

/-- The functions with an overload for several items. -/
inductive Family where
  | rpush
  | rpushx
  | lpush
  | lpushx
  | brpop
  | blpop
  | hget
  | hset
  | sadd
  | srem
  | sismember
  deriving DecidableEq

/-- The overloads of the function agree for a key, a timeout and further
parameters. -/
def OverloadsAgree (key : Bytes) (timeout : Int64) (params : List Bytes) :
    Family → Prop
  | .rpush => Extends id (rpush key) (rpushArray key)
  | .rpushx => Extends id (rpushx key) (rpushxArray key)
  | .lpush => Extends id (lpush key) (lpushArray key)
  | .lpushx => Extends id (lpushx key) (lpushxArray key)
  | .brpop =>
      Extends id (brpop · timeout) (brpopKeys · timeout)
  | .blpop =>
      Extends id (blpop · timeout) (blpopKeys · timeout)
  | .hget => Extends id (hget key) (hgetFields key)
  | .hset =>
      Extends Std.ExtTreeMap.toList
        (fun entry : Bytes × Value => hset key entry.1 entry.2 params)
        (hsetMap key · params)
  | .sadd =>
      Extends id (fun member => saddArgs key [member]) (sadd key)
  | .srem =>
      Extends id (fun member => sremArgs key [member]) (srem key)
  | .sismember =>
      Extends id (sismember key) (sismemberStrings key)

theorem extends_of_frame {α β κ : Type} [Item α] [Item β]
    {items : κ → List β} {single : α → Outcome BadCast Command}
    (front back : List Bytes)
    (singleFrame : ∀ item texts, SpelledBy item texts →
      single item = .returns ⟨front ++ texts ++ back⟩) :
    Extends items single fun collection =>
      multiItem front (items collection) back where
  one item listed texts collection spelled listedSpelled isOne := by
    rw [isOne, multiItem_eq (.cons listedSpelled .nil),
      singleFrame item texts spelled, List.flatten_singleton]
  frame :=
    ⟨front, back, singleFrame, fun _ _ spelled => multiItem_eq spelled _ _⟩

theorem extends_singleItem {α κ : Type} [Item α] (items : κ → List α)
    (front back : List Bytes) :
    Extends items (fun item : α => singleItem front item back)
      fun collection => multiItem front (items collection) back :=
  extends_of_frame front back fun _ _ spelled => singleItem_eq spelled _ _

theorem extends_variadic (front back : List Bytes) :
    Extends id (fun member : Argument => multiItem front [member] back)
      fun members : List Bytes => multiItem front members back := by
  refine extends_of_frame front back fun member texts spelled => ?_
  rw [multiItem_eq (.cons spelled .nil), List.flatten_singleton]

/-- `hget` for several fields builds an `HSET`. -/
theorem not_extends_hget (key : Bytes) :
    ¬Extends id (hget key) (hgetFields key) := by
  intro agree
  have same := agree.one [] [] [[]] [[]] rfl rfl rfl
  have verbs : ascii "HSET" = ascii "HGET" := by
    simpa [hget, hgetFields, multiItem, pushBackAll, singleItem, Item.texts]
      using same
  exact absurd verbs (by decide)

/-- The overloads of every function agree, except those of `hget`. -/
theorem overloadsAgree_iff (key : Bytes) (timeout : Int64)
    (params : List Bytes) (family : Family) :
    OverloadsAgree key timeout params family ↔ family ≠ .hget := by
  cases family with
  | hget => exact iff_of_false (not_extends_hget key) (absurd rfl)
  | rpush => exact iff_of_true (extends_singleItem id _ _) nofun
  | rpushx => exact iff_of_true (extends_singleItem id _ _) nofun
  | lpush => exact iff_of_true (extends_singleItem id _ _) nofun
  | lpushx => exact iff_of_true (extends_singleItem id _ _) nofun
  | brpop => exact iff_of_true (extends_singleItem id _ _) nofun
  | blpop => exact iff_of_true (extends_singleItem id _ _) nofun
  | hset =>
      exact iff_of_true (extends_singleItem Std.ExtTreeMap.toList _ _) nofun
  | sadd => exact iff_of_true (extends_variadic _ _) nofun
  | srem => exact iff_of_true (extends_variadic _ _) nofun
  | sismember => exact iff_of_true (extends_singleItem id _ _) nofun

/-- `hget("k", {"f"})` is `HSET k f`. -/
theorem not_overloadsAgree_hget :
    ¬∀ key timeout params family,
      OverloadsAgree key timeout params family := by
  intro agree
  have same : hgetFields [107] [[102]] = hget [107] [102] :=
    (agree [107] 0 [] .hget).one [102] [102] [[102]] [[102]] rfl rfl rfl
  revert same
  decide

end RedisClient
