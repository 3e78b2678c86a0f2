/-!
# Queries

The questions asked of a monitoring backend. A query selects fields, some of which select fields of
their own, and is written with every field on a line of its own.
-/

namespace Coupling.Trace

/-- What a query selects. -/
inductive Selection where
  | field (name : String)
  /-- A field with what is selected of it, indented by so many blanks. -/
  | within (name : String) (step : Nat) (parts : List Selection)
deriving Inhabited

namespace Selection

def line (depth : Nat) (text : String) : String :=
  String.ofList (List.replicate depth ' ') ++ text ++ "\n"

mutual

def render (depth : Nat) : Selection → String
  | .field name => line depth name
  | .within name step parts => line depth (name ++ " \x7b") ++ renderAll (depth + step) parts ++
    line depth "\x7d"

def renderAll (depth : Nat) : List Selection → String
  | [] => ""
  | s :: ss => s.render depth ++ renderAll depth ss

end

/-- A query as a text with a margin of eight blanks. -/
def query (s : Selection) : String := "\n" ++ s.render 8 ++ String.ofList (List.replicate 8 ' ')

def fields (names : List String) : List Selection := names.map .field

/-- A field with what is selected of it. -/
def of (name : String) (parts : List Selection) : Selection := .within name 4 parts

end Selection

open Selection (fields of)

/-- Asks for the services of a layer. -/
def servicesQuery : String := Selection.query <|
  of "query queryServices($layer: String!)" [
    of "services: listServices(layer: $layer)"
      (fields ["id", "value: name", "label: name", "group", "layers", "normal", "shortName"])]

/-- Asks for the traces that meet a condition. -/
def tracesQuery : String := Selection.query <|
  of "query queryTraces($condition: TraceQueryCondition)" [
    of "data: queryBasicTraces(condition: $condition)" [
      .within "traces" 0 (fields ["key: segmentId", "endpointNames", "duration", "start", "isError",
        "traceIds"])]]

/-- A key and a value. -/
def keyAndValue : List Selection := fields ["key", "value"]

/-- A time in seconds and what is left of it. -/
def instant : List Selection := fields ["seconds", "nanos"]

/-- Asks for the spans of a trace. -/
def traceQuery : String := Selection.query <|
  of "query queryTrace($traceId: ID!)" [
    of "trace: queryTrace(traceId: $traceId)" [
      of "spans" (
        fields ["traceId", "segmentId", "spanId", "parentSpanId"]
        ++ [of "refs" (fields ["traceId", "parentSegmentId", "parentSpanId", "type"])]
        ++ fields ["serviceCode", "serviceInstanceName", "startTime", "endTime", "endpointName",
          "type", "peer", "component", "isError", "layer"]
        ++ [of "tags" keyAndValue, of "logs" [.field "time", of "data" keyAndValue],
          of "attachedEvents" [of "startTime" instant, .field "event", of "endTime" instant,
            of "tags" keyAndValue, of "summary" keyAndValue]])]]

end Coupling.Trace
