import Coupling.Json.Writer

/-!
# Chart pages

A page that draws nodes and links with a chart library. The lines of the page have a margin; the
data stand in it as they are.
-/

namespace Coupling

namespace Page

/-- The lines before the title of the page. -/
def opening : List String := [
  "<!DOCTYPE html>",
  "<html style=\"height:100%\">",
  "<head>",
  "    <meta charset=\"utf-8\">"]

/-- The lines between the title of the page and that of the chart. -/
def frame : List String := [
  "    <script src=\"https://cdn.staticfile.org/echarts/5.4.2/echarts.min.js\"></script>",
  "    <style>",
  "        body, html \x7b margin:0; padding:0; height:100%; width:100%; \x7d",
  "        #main \x7b height:100vh; width:100vw; \x7d",
  "    </style>",
  "</head>",
  "<body>",
  "    <div id=\"main\"></div>",
  "    <script>",
  "        var chart = echarts.init(document.getElementById('main'));",
  "",
  "        var option = \x7b",
  "            title: \x7b"]

/-- The lines between the title of the chart and what is shown for a node. -/
def tooltip : List String := [
  "                left: 'center',",
  "                textStyle: \x7b color: '#666', fontSize: 24 \x7d",
  "            \x7d,",
  "            tooltip: \x7b",
  "                trigger: 'item',",
  "                formatter: function(params) \x7b",
  "                    if(params.dataType === 'node') \x7b"]

/-- The lines between what is shown for a node and the data. -/
def layout : List String := [
  "                    \x7d",
  "                    return `权重：$\x7bparams.value\x7d`;",
  "                \x7d",
  "            \x7d,",
  "            animationDuration: 2000,",
  "            series: [\x7b",
  "                type: 'graph',",
  "                layout: 'force',",
  "                force: \x7b",
  "                    repulsion: 3000,",
  "                    gravity: 0.1,",
  "                    edgeLength: 150,",
  "                    layoutAnimation: true",
  "                \x7d,",
  "                roam: true,",
  "                focusNodeAdjacency: true,",
  "                edgeSymbol: ['none', 'arrow'],",
  "                edgeSymbolSize: [0, 15],",
  "                label: \x7b",
  "                    show: true,",
  "                    position: 'right',",
  "                    fontSize: 12,",
  "                    color: '#000',",
  "                    formatter: function(params) \x7b",
  "                        // 名称截断显示",
  "                        return params.name.length > 15 ? ",
  "                            params.name.substr(0,12)+'...' : ",
  "                            params.name;",
  "                    \x7d,",
  "                    emphasis: \x7b show: false \x7d  // 悬停时不显示标签",
  "                \x7d,",
  "                emphasis: \x7b",
  "                    label: \x7b show: false \x7d,",
  "                    itemStyle: \x7b",
  "                        shadowBlur: 20,",
  "                        shadowColor: 'rgba(0, 0, 0, 0.5)'",
  "                    \x7d",
  "                \x7d,",
  "                lineStyle: \x7b",
  "                    curveness: 0.2,",
  "                    opacity: 0.8",
  "                \x7d,"]

/-- The lines after the data. -/
def closing : List String := [
  "            \x7d],",
  "            legend: \x7b",
  "                orient: 'vertical',",
  "                right: 20,",
  "                top: 60,",
  "                textStyle: \x7b color: '#666' \x7d",
  "            \x7d",
  "        \x7d;",
  "",
  "        chart.setOption(option);",
  "",
  "        // 窗口自适应",
  "        window.addEventListener('resize', () => chart.resize());",
  "",
  "        // 双击重置视图",
  "        chart.getZr().on('dblclick', () => \x7b",
  "            chart.setOption(option);",
  "        \x7d);",
  "    </script>",
  "</body>",
  "</html>"]

end Page

/-- What a page shows. -/
structure Page where
  /-- How many blanks stand before every line. -/
  margin : Nat
  title : String
  /-- The lines of what is shown for a node. -/
  nodeTip : List String
  nodes : Json
  links : Json
  /-- The groups of nodes, as they stand in the page. -/
  categories : String

namespace Page

/-- A line with a margin; an empty line has none. -/
def indented (margin : Nat) (line : String) : String :=
  if line.isEmpty then line else String.ofList (List.replicate margin ' ') ++ line

/-- The text of a page. -/
def render (p : Page) : String :=
  let blanks (n : Nat) : String := String.ofList (List.replicate n ' ')
  let lines := opening ++ ["    <title>" ++ p.title ++ "</title>"] ++ frame
    ++ [blanks 16 ++ "text: '" ++ p.title ++ "',"] ++ tooltip ++ p.nodeTip ++ layout
    ++ [blanks 16 ++ "data: " ++ p.nodes.pretty ++ ",", blanks 16 ++ "links: " ++
      p.links.pretty ++ ",", blanks 16 ++ "categories: " ++ p.categories] ++ closing
  "\n" ++ String.join (lines.map fun l => indented p.margin l ++ "\n") ++ blanks p.margin

end Page

end Coupling
