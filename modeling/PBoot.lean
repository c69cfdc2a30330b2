import PBoot.Lib.Bytes
import PBoot.Lib.Run
import PBoot.Lib.Search
import PBoot.Storage.Proof.Open
import PBoot.Boot.Main
import PBoot.Boot.Proof.Priority
import PBoot.Boot.Proof.Decision
import PBoot.Boot.Proof.OneTime
import PBoot.Boot.Proof.ResetChain
import PBoot.Gui.Menu
import PBoot.Gui.BootGui
import PBoot.Gui.Proof.Setup
import PBoot.Gui.Proof.Options
import PBoot.Gui.Proof.Settings
import PBoot.Lib.Placement
import PBoot.Boot.Prepare
import PBoot.Boot.Proof.Prepare
import PBoot.Conf.Parse
import PBoot.Conf.Proof.Table
import PBoot.Conf.Write
import PBoot.Conf.Proof.Files
import PBoot.Conf.Proof.ReadBack
import PBoot.Conf.Proof.Text
import PBoot.Conf.Proof.Extents
import PBoot.Conf.Proof.Stop
import PBoot.Font.Proof.Rle
import PBoot.Gui.Proof.Items
import PBoot.Gui.Proof.Pok
import PBoot.Gui.Proof.Strings
import PBoot.Gui.Proof.Start
import PBoot.Gui.Proof.Cause
import PBoot.Conf.Proof.Layout
import PBoot.Lib.Arrays
import PBoot.Gui.Proof.Navigate
import PBoot.Gui.Proof.Scroll
import PBoot.Gui.Proof.Volume
import PBoot.Video.Console
import PBoot.Video.Proof.Blit
import PBoot.Video.Proof.Scrollback
import PBoot.Boot.Proof.Mac
import PBoot.Lib.Walk
import PBoot.Boot.Proof.Mmu
import PBoot.Display.Proof.Commit
import PBoot.Lib.Check
import PBoot.Display.Proof.Dsi
import PBoot.Gui.Proof.StrBuf
import PBoot.Conf.Proof.Accept
import PBoot.Display.Proof.Divide
import PBoot.Lib.Numeral
import PBoot.Log.Proof.Printf
import PBoot.Conf.Proof.Trim
import PBoot.Log.Proof.Dump
import PBoot.Boot.Mem
import PBoot.Fdt.Blob
import PBoot.Fdt.Boot
import PBoot.Fdt.Proof.Edit
import PBoot.Fdt.Proof.Support
import PBoot.Fdt.Proof.Device
import PBoot.Fdt.Proof.Selection
import PBoot.Fdt.Proof.Finalize
import PBoot.Fdt.Proof.Handover
