import RedisClient.Command
import RedisClient.ValueHash

/-!
# Building commands

The functions that build a command for one item have overloads for several.
They collect a verb, what is fixed, the texts of the items and what follows
them.  An item that is a value is converted to a string on the way, which may
throw.
-/

namespace RedisClient

open Basis

/-- What an item adds to the strings of a command. -/
class Item (α : Type) where
  texts : α → Outcome BadCast (List Bytes)

instance : Item Bytes where
  texts text := .returns [text]

instance : Item Value where
  texts value := do
    let text ← value.convert Value.asString
    .returns [text]

/-- A field and its value. -/
instance : Item (Bytes × Value) where
  texts entry := do
    let text ← entry.2.convert Value.asString
    .returns [entry.1, text]

/-- An argument of a function template that is pushed to a vector of strings:
a string, or a value that is converted to one. -/
inductive Argument where
  | string (text : Bytes)
  | value (value : Value)

instance : Item Argument where
  texts
    | .string text => Item.texts text
    | .value value => Item.texts value

/-- `for (auto& item : items) { commandStrings.push_back(item); }` -/
def pushBackAll {α : Type} [Item α] (commandStrings : List Bytes) :
    List α → Outcome BadCast (List Bytes)
  | [] => .returns commandStrings
  | item :: items => do
      let texts ← Item.texts item
      pushBackAll (commandStrings ++ texts) items

/-- A command of one item. -/
def singleItem {α : Type} [Item α] (front : List Bytes) (item : α)
    (back : List Bytes) : Outcome BadCast Command := do
  let texts ← Item.texts item
  .returns ⟨front ++ texts ++ back⟩

/-- A command of a collection of items. -/
def multiItem {α : Type} [Item α] (front : List Bytes) (items : List α)
    (back : List Bytes) : Outcome BadCast Command := do
  let commandStrings ← pushBackAll front items
  .returns ⟨commandStrings ++ back⟩

/-- `std::to_string` -/
def toString (number : Int64) : Bytes := Decimal.printInt number.toInt

def rpush (key : Bytes) (value : Value) : Outcome BadCast Command :=
  singleItem [ascii "RPUSH", key] value []

/-- `rpush(string, redis_array)` -/
def rpushArray (key : Bytes) (values : List Value) :
    Outcome BadCast Command :=
  multiItem [ascii "RPUSH", key] values []

def rpushx (key : Bytes) (value : Value) : Outcome BadCast Command :=
  singleItem [ascii "RPUSHX", key] value []

/-- `rpushx(string, redis_array)` -/
def rpushxArray (key : Bytes) (values : List Value) :
    Outcome BadCast Command :=
  multiItem [ascii "RPUSHX", key] values []

def lpush (key : Bytes) (value : Value) : Outcome BadCast Command :=
  singleItem [ascii "LPUSH", key] value []

/-- `lpush(string, redis_array)` -/
def lpushArray (key : Bytes) (values : List Value) :
    Outcome BadCast Command :=
  multiItem [ascii "LPUSH", key] values []

def lpushx (key : Bytes) (value : Value) : Outcome BadCast Command :=
  singleItem [ascii "LPUSHX", key] value []

/-- `lpushx(string, redis_array)` -/
def lpushxArray (key : Bytes) (values : List Value) :
    Outcome BadCast Command :=
  multiItem [ascii "LPUSHX", key] values []

def brpop (key : Bytes) (timeout : Int64) : Outcome BadCast Command :=
  singleItem [ascii "BRPOP"] key [toString timeout]

/-- `brpop(std::vector<string>, int64_t)` -/
def brpopKeys (keys : List Bytes) (timeout : Int64) :
    Outcome BadCast Command :=
  multiItem [ascii "BRPOP"] keys [toString timeout]

def blpop (key : Bytes) (timeout : Int64) : Outcome BadCast Command :=
  singleItem [ascii "BLPOP"] key [toString timeout]

/-- `blpop(std::vector<string>, int64_t)` -/
def blpopKeys (keys : List Bytes) (timeout : Int64) :
    Outcome BadCast Command :=
  multiItem [ascii "BLPOP"] keys [toString timeout]

def hset (key field : Bytes) (value : Value) (params : List Bytes) :
    Outcome BadCast Command :=
  singleItem [ascii "HSET", key] (field, value) params

/-- `hset(string, const std::map<std::string, redis::value>&, parameters)` -/
def hsetMap (key : Bytes) (values : Hash) (params : List Bytes) :
    Outcome BadCast Command :=
  multiItem [ascii "HSET", key] values.toList params

def hget (key field : Bytes) : Outcome BadCast Command :=
  singleItem [ascii "HGET", key] field []

/-- `hget(string, std::vector<string>)` -/
def hgetFields (key : Bytes) (fields : List Bytes) :
    Outcome BadCast Command :=
  multiItem [ascii "HSET", key] fields []

/-- `template <typename... Args> command sadd(std::string, Args...)` -/
def saddArgs (key : Bytes) (members : List Argument) :
    Outcome BadCast Command :=
  multiItem [ascii "SADD", key] members []

def sadd (key : Bytes) (members : List Bytes) : Outcome BadCast Command :=
  multiItem [ascii "SADD", key] members []

/-- `template <typename... Args> command srem(std::string, Args...)` -/
def sremArgs (key : Bytes) (members : List Argument) :
    Outcome BadCast Command :=
  multiItem [ascii "SREM", key] members []

def srem (key : Bytes) (members : List Bytes) : Outcome BadCast Command :=
  multiItem [ascii "SREM", key] members []

def sismember (key member : Bytes) : Outcome BadCast Command :=
  singleItem [ascii "SISMEMBER", key] member []

/-- `sismember(std::string, strings)` -/
def sismemberStrings (key : Bytes) (members : List Bytes) :
    Outcome BadCast Command :=
  multiItem [ascii "SISMEMBER", key] members []

/-- The item is spelled by the texts. -/
def SpelledBy {α : Type} [Item α] (item : α) (texts : List Bytes) : Prop :=
  Item.texts item = .returns texts

theorem pushBackAll_eq {α : Type} [Item α] {items : List α}
    {texts : List (List Bytes)} (spelled : List.Forall₂ SpelledBy items texts)
    (commandStrings : List Bytes) :
    pushBackAll commandStrings items =
      .returns (commandStrings ++ texts.flatten) := by
  induction spelled generalizing commandStrings with
  | nil => simp [pushBackAll]
  | @cons item text items texts head tail induction =>
      have itemTexts : Item.texts item = .returns text := head
      simp [pushBackAll, itemTexts, induction]

theorem singleItem_eq {α : Type} [Item α] {item : α} {texts : List Bytes}
    (spelled : SpelledBy item texts) (front back : List Bytes) :
    singleItem front item back = .returns ⟨front ++ texts ++ back⟩ := by
  have itemTexts : Item.texts item = .returns texts := spelled
  simp [singleItem, itemTexts]

theorem multiItem_eq {α : Type} [Item α] {items : List α}
    {texts : List (List Bytes)} (spelled : List.Forall₂ SpelledBy items texts)
    (front back : List Bytes) :
    multiItem front items back =
      .returns ⟨front ++ texts.flatten ++ back⟩ := by
  simp [multiItem, pushBackAll_eq spelled]

end RedisClient
