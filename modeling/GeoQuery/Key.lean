import GeoQuery.Command

namespace GeoQuery

inductive KeyQuery
  | get (key id : String)
  | del (key id : String)
  | drop (key : String)
  | expire (key id : String) (seconds : UInt64)
  | persist (key id : String)
  | ttl (key id : String)
deriving DecidableEq

namespace KeyQuery

abbrev objectFields : Fields :=
  .required "key" (.scalar .text) <| .required "id" (.scalar .text) .nil

abbrev shape : Shape :=
  .tagged "internally tagged enum KeyCommand" "cmd" <|
    .cons "get" "struct variant KeyCommand::Get" objectFields <|
    .cons "del" "struct variant KeyCommand::Del" objectFields <|
    .cons "drop" "struct variant KeyCommand::Drop" (.required "key" (.scalar .text) .nil) <|
    .cons "expire" "struct variant KeyCommand::Expire"
      (.required "key" (.scalar .text) <| .required "id" (.scalar .text) <|
        .required "seconds" (.scalar .word64) .nil) <|
    .cons "persist" "struct variant KeyCommand::Persist" objectFields <|
    .cons "ttl" "struct variant KeyCommand::Ttl" objectFields .nil

def ofValue : shape.Value → KeyQuery
  | .inl (key, id, ()) => .get key id
  | .inr (.inl (key, id, ())) => .del key id
  | .inr (.inr (.inl (key, ()))) => .drop key
  | .inr (.inr (.inr (.inl (key, id, seconds, ())))) => .expire key id seconds
  | .inr (.inr (.inr (.inr (.inl (key, id, ()))))) => .persist key id
  | .inr (.inr (.inr (.inr (.inr (.inl (key, id, ())))))) => .ttl key id

def toValue : KeyQuery → shape.Value
  | .get key id => .inl (key, id, ())
  | .del key id => .inr (.inl (key, id, ()))
  | .drop key => .inr (.inr (.inl (key, ())))
  | .expire key id seconds => .inr (.inr (.inr (.inl (key, id, seconds, ()))))
  | .persist key id => .inr (.inr (.inr (.inr (.inl (key, id, ())))))
  | .ttl key id => .inr (.inr (.inr (.inr (.inr (.inl (key, id, ()))))))

def name : KeyQuery → String
  | .get .. => "GET"
  | .del .. => "DEL"
  | .drop _ => "DROP"
  | .expire .. => "EXPIRE"
  | .persist .. => "PERSIST"
  | .ttl .. => "TTL"

def arguments : KeyQuery → List Argument
  | .drop key => [.word key]
  | .expire key id seconds => [.word key, .word id, .nat seconds.toNat]
  | .get key id | .del key id | .persist key id | .ttl key id => [.word key, .word id]

def compilation (q : KeyQuery) : Compilation := .ofArguments q.name q.arguments

def compile (q : KeyQuery) : Except Error Command := q.compilation.result

end KeyQuery

end GeoQuery
